/-
Building a tree undoes writing it in postfix form.

`Linearises items t` is the rule of postfix form on its own: operands first,
their operator behind them. It knows nothing of a fold. An operand may be
any tree, since a yard can be filled by hand, and then nothing is said of
what is inside.

The fold reads items from the end. So the two directions are said of items
in that order with anything before them: what linearises a tree folds to it
and leaves the rest (`Linearises.peel`), and what the fold has taken
linearises the tree that it gives (`linearises_of_tree`). That postfix form
can be read in one way only then needs no argument of its own.
-/
import Lox.Proofs.Yard

namespace Lox

-- ========================================================== postfix form

/-- `Linearises items t`: the items, first one first, are the tree `t` in
postfix form. -/
inductive Linearises : List Item → Node → Prop where
  | operand (t : Node) : Linearises [.operand t] t
  | binary {ls rs : List Item} {left right : Node} (op : BinaryOp) :
      Linearises ls left → Linearises rs right →
      Linearises (ls ++ rs ++ [.operator (some (.binary op))]) (.binary (.binary op) left right)
  | unary {items : List Item} {operand : Node} (op : UnaryOp) :
      Linearises items operand →
      Linearises (items ++ [.operator (some (.unary op))]) (.unary (.unary op) operand)
  | assign {items : List Item} {value : Node} (x : String) :
      Linearises items value →
      Linearises ([.operand (.variable x)] ++ items ++ [.operator (some .assign)])
        (.assignment x value)

/-- The fold takes exactly the postfix form at the end of some items. -/
theorem Linearises.peel {items : List Item} {t : Node} (h : Linearises items t)
    (before : List Item) : Postfix.peel (items.reverse ++ before) = .ok (t, before) := by
  induction h generalizing before with
  | operand t => exact Postfix.peel_operand t before
  | @binary ls rs left right op _ _ ihl ihr =>
      have hreverse : (ls ++ rs ++ [Item.operator (some (.binary op))]).reverse ++ before
          = .operator (some (.binary op)) :: (rs.reverse ++ (ls.reverse ++ before)) := by simp
      rw [hreverse, Postfix.peel_binary, ihr]
      simp only [Except.bind, ihl]
      rfl
  | @unary items operand op _ ih =>
      have hreverse : (items ++ [Item.operator (some (.unary op))]).reverse ++ before
          = .operator (some (.unary op)) :: (items.reverse ++ before) := by simp
      rw [hreverse, Postfix.peel_unary, ih]
      rfl
  | @assign items value x _ ih =>
      have hreverse :
          ([Item.operand (.variable x)] ++ items ++ [Item.operator (some .assign)]).reverse ++ before
            = .operator (some .assign)
              :: (items.reverse ++ (.operand (.variable x) :: before)) := by simp
      rw [hreverse, Postfix.peel_assign, ih]
      rfl

/-- Items linearise at most one tree. -/
theorem Linearises.unique {items : List Item} {t t' : Node} (h : Linearises items t)
    (h' : Linearises items t') : t = t' := by
  have heq := (h.peel []).symm.trans (h'.peel [])
  exact congrArg Prod.fst (Except.ok.inj heq)

namespace Postfix

/-- What the fold takes from the end of some items is the postfix form of the
tree that it gives. -/
theorem linearises_of_tree {items : List Item} {node : Node}
    {rest : { rest : List Item // rest.length < items.length }}
    (h : tree items = .ok (node, rest)) :
    ∃ taken, Linearises taken node ∧ items = taken.reverse ++ rest.1 := by
  fun_induction tree items generalizing node with
  | case2 operand rest =>
      cases h
      exact ⟨_, .operand _, rfl⟩
  | case5 op rest right beforeRight hright heq left beforeLeft hleft heq' ih ih' =>
      obtain ⟨rs, hrs, hrest⟩ := ih heq
      obtain ⟨ls, hls, hbefore⟩ := ih' heq'
      cases h
      exact ⟨_, .binary op hls hrs, by simp [hrest, hbefore]⟩
  | case7 op rest operand before hlt heq ih =>
      obtain ⟨taken, htaken, hrest⟩ := ih heq
      cases h
      exact ⟨_, .unary op htaken, by simp [hrest]⟩
  | case9 rest value name before hlt heq ih =>
      obtain ⟨taken, htaken, hrest⟩ := ih heq
      cases h
      exact ⟨_, .assign name htaken, by simp [hrest]⟩
  | case1 | case3 | case4 | case6 | case8 | case10 | case11 => cases h

/-- The fold inverts the postfix form, and accepts nothing else. -/
theorem wholeTree_eq_ok_iff {items : List Item} {t : Node} :
    wholeTree items = .ok t ↔ Linearises items.reverse t := by
  constructor
  · intro h
    unfold wholeTree at h
    split at h
    · cases h
    · next heq =>
        cases h
        obtain ⟨taken, htaken, hitems⟩ := linearises_of_tree heq
        rw [hitems, List.append_nil, List.reverse_reverse]
        exact htaken
    · cases h
  · intro h
    have hpeel := h.peel []
    rw [List.reverse_reverse, List.append_nil] at hpeel
    rw [wholeTree_eq, hpeel]
    rfl

end Postfix

-- =============================================================== the yard

/-- Draining writes the waiting operators behind the output, the top first. -/
theorem drain_eq (operators : List Operator) (output : List Item) :
    drain operators output = (operators.map (.operator ∘ some)).reverse ++ output := by
  induction operators generalizing output with
  | nil => rfl
  | cons w below ih => simp [drain, ih]

/-- An open parenthesis is all that keeps waiting operators from moving
out. -/
theorem flush_eq (operators : List Operator) (output : List Item) :
    Yard.flush operators output
      = if .unary .group ∈ operators then none else some (drain operators output) := by
  by_cases hgroup : Operator.unary .group ∈ operators
  · rw [if_pos hgroup]
    fun_induction Yard.flush operators output with
    | case1 => cases hgroup
    | case2 => rfl
    | case3 w below output hw ih =>
        rcases List.mem_cons.1 hgroup with rfl | hbelow
        · exact absurd rfl hw
        · exact ih hbelow
  · rw [if_neg hgroup, flush_eq_drain]
    rintro w hw rfl
    exact hgroup hw

/-- All that a yard has put out and has still to put out, first item first:
the output, and then the waiting operators from the top down. -/
def Yard.written (y : Yard) : List Item :=
  y.output.reverse ++ y.operators.map (.operator ∘ some)

/-- A yard finishes with a tree if it has one. -/
theorem Yard.finish_eq_ok_iff {y : Yard} {terminator : Token} {t : Node} :
    y.finish terminator = .ok t ↔ y.tree = .ok t := by
  unfold Yard.finish
  cases y.tree with
  | error fault => simp
  | ok node => simp

/-- A yard has a tree if no parenthesis waits and what it has written is a
postfix form. -/
theorem Yard.tree_eq_ok_iff {y : Yard} {t : Node} :
    y.tree = .ok t ↔ .unary .group ∉ y.operators ∧ Linearises y.written t := by
  unfold Yard.tree
  rw [flush_eq]
  by_cases hgroup : Operator.unary .group ∈ y.operators
  · rw [if_pos hgroup]
    exact ⟨fun h => (by cases h), fun h => absurd hgroup h.1⟩
  · rw [if_neg hgroup]
    dsimp only
    rw [Postfix.wholeTree_eq_ok_iff, drain_eq, List.reverse_append, List.reverse_reverse]
    exact ⟨fun h => ⟨hgroup, h⟩, fun h => h.2⟩

-- ============================================================ the result

/-- Building the tree of a yard, with whatever it holds, undoes writing a
tree in postfix form. It gives a tree exactly if no parenthesis is open and
the output with the waiting operators behind it linearises that tree, and
otherwise objects at the terminator. No items linearise two trees. -/
theorem finish_inverts_linearisation (y : Yard) (terminator : Token) :
    (∀ t, y.finish terminator = .ok t
        ↔ .unary .group ∉ y.operators ∧ Linearises y.written t)
      ∧ ((¬ ∃ t, .unary .group ∉ y.operators ∧ Linearises y.written t) →
          ∃ fault, y.finish terminator = .error (.rejected fault (some terminator)))
      ∧ ∀ items t t', Linearises items t → Linearises items t' → t = t' := by
  refine ⟨fun t => Yard.finish_eq_ok_iff.trans Yard.tree_eq_ok_iff, fun hnone => ?_,
    fun items t t' h h' => h.unique h'⟩
  cases htree : y.tree with
  | ok t => exact absurd ⟨t, Yard.tree_eq_ok_iff.1 htree⟩ hnone
  | error fault => exact ⟨fault, by rw [Yard.finish, htree]⟩

/-- With `1` and `2` put out and a minus waiting the items written spell out
a tree, and only that; with nothing but `1` put out there is none. -/
theorem finish_of_difference :
    let one : Node := .literal (.string "1")
    let two : Node := .literal (.string "2")
    let difference : Node := .binary (.binary .minus) one two
    let full : Yard := { operators := [.binary .minus], output := [.operand two, .operand one] }
    let short : Yard := { operators := [.binary .minus], output := [.operand one] }
    full.written = [.operand one, .operand two, .operator (some (.binary .minus))]
      ∧ full.finish default = .ok difference
      ∧ (∀ t, Linearises full.written t → t = difference)
      ∧ ∃ fault, short.finish default = .error (.rejected fault (some default)) := by
  intro one two difference full short
  have hwritten : Linearises full.written difference :=
    .binary .minus (.operand one) (.operand two)
  have hfails : (short.finish default).isOk = false := by decide +kernel
  obtain ⟨hfull, -, hunique⟩ := finish_inverts_linearisation full default
  obtain ⟨hshort, hnone, -⟩ := finish_inverts_linearisation short default
  refine ⟨rfl, (hfull _).2 ⟨by simp [full], hwritten⟩, fun t ht => hunique _ _ _ ht hwritten,
    hnone ?_⟩
  rintro ⟨t, ht⟩
  rw [(hshort t).2 ht] at hfails
  cases hfails

end Lox

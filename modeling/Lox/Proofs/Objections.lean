/-
Which objections parsing can raise.

Four syntax faults guard against states that parsing never reaches: two for
tokens that run out, one for operands left over in the fold, one for an
operator that is unknown. The first two point at no token, so over a source
they do not arise. For the other two the argument is a count. Output that
the yard writes is `Grounded`: every operator in it is known, and from its
start up to any item operands are no fewer than two-sided operators. The
fold takes items that count one; where an operand is missing, the whole
counts nothing, so if the fold left anything, that would count less than
nothing. And where no operand is missing, the output is the postfix form of
a draft, with which only a target can be wrong.

A parse is `Regular` if it objects to tokens only for reasons that can be
found inside a statement, which are none of those four, nor that a block is
not closed. Every parser of a statement that is no block is, on any cursor.
-/
import Lox.Proofs.Program

namespace Lox

/-- The faults that guard against states which parsing does not reach. -/
def SyntaxFault.isGuard : SyntaxFault → Bool
  | .endInExpression | .endInStatement | .operandsLeft | .unknownOperator => true
  | _ => false

/-- The faults that can be found inside a statement other than a block. -/
def SyntaxFault.isInner (fault : SyntaxFault) : Bool :=
  !fault.isGuard && fault != .braceAfterBlock

/-- A fault of the inner parser is not a guard's. -/
theorem SyntaxFault.isGuard_of_isInner {fault : SyntaxFault} (h : fault.isInner = true) :
    fault.isGuard = false := by
  cases fault <;> first | rfl | cases h

-- ======================================================== grounded output

/-- Postfix form in which all operators are known and no part from the start
has more two-sided operators than operands. -/
def Grounded : List Item → Prop
  | [] => True
  | item :: items => item ≠ .operator none ∧ 0 ≤ weight (item :: items) ∧ Grounded items

/-- Output that is grounded has no more operators than operands. -/
theorem Grounded.weight_nonneg {items : List Item} (h : Grounded items) : 0 ≤ weight items := by
  cases items with
  | nil => simp
  | cons item items => exact h.2.1

/-- More postfix form on top of grounded output is grounded. -/
theorem Grounded.items {output : List Item} (h : Grounded output) (d : Draft) :
    Grounded (d.items ++ output) := by
  have hweight (d : Draft) {output : List Item} (h : Grounded output) :
      0 ≤ weight (d.items ++ output) := by
    have := h.weight_nonneg
    rw [weight_append, d.weight_items]
    omega
  induction d generalizing output with
  | operand node => exact ⟨by simp, hweight (.operand node) h, h⟩
  | unary op d ih => exact ⟨by simp, hweight (.unary op d) h, ih h⟩
  | binary op left right ihl ihr =>
      have hitems := hweight (.binary op left right) h
      rw [Draft.items, List.cons_append, List.append_assoc] at hitems ⊢
      exact ⟨by simp, hitems, ihr (ihl h)⟩
  | assign target value iht ihv =>
      have hitems := hweight (.assign target value) h
      rw [Draft.items, List.cons_append, List.append_assoc] at hitems ⊢
      exact ⟨by simp, hitems, ihv (iht h)⟩

namespace Postfix

/-- What the fold leaves is grounded if what it was given is. -/
theorem grounded_of_tree {items : List Item} {node : Node}
    {rest : { rest : List Item // rest.length < items.length }}
    (h : tree items = .ok (node, rest)) (hitems : Grounded items) : Grounded rest.1 := by
  fun_induction tree items generalizing node with
  | case2 operand rest =>
      cases h
      exact hitems.2.2
  | case5 op rest right beforeRight hright heq left beforeLeft hleft heq' ih ih' =>
      cases h
      exact ih' heq' (ih heq hitems.2.2)
  | case7 op rest operand before hlt heq ih =>
      cases h
      exact ih heq hitems.2.2
  | case9 rest value name before hlt heq ih =>
      cases h
      exact (ih heq hitems.2.2).2.2
  | case1 | case3 | case4 | case6 | case8 | case10 | case11 => cases h

/-- Over grounded items the fold fails only where items are missing or a
target is none. -/
theorem tree_error {items : List Item} {fault : SyntaxFault} (h : tree items = .error fault)
    (hitems : Grounded items) : fault = .missingOperand ∨ fault = .badTarget := by
  fun_induction tree items with
  | case1 => cases h; exact .inl rfl
  | case3 op rest fault' heq ih =>
      cases h
      exact ih heq hitems.2.2
  | case4 op rest right beforeRight hright heq fault' heq' ih ih' =>
      cases h
      exact ih' heq' (grounded_of_tree heq hitems.2.2)
  | case6 op rest fault' heq ih =>
      cases h
      exact ih heq hitems.2.2
  | case8 rest fault' heq ih =>
      cases h
      exact ih heq hitems.2.2
  | case10 => cases h; exact .inr rfl
  | case11 => exact absurd rfl hitems.1
  | case2 | case5 | case7 | case9 => cases h

/-- Grounded items that count nothing leave nothing over. -/
theorem wholeTree_error {items : List Item} {fault : SyntaxFault}
    (h : wholeTree items = .error fault) (hitems : Grounded items) (hweight : weight items = 0) :
    fault = .missingOperand ∨ fault = .badTarget := by
  unfold wholeTree at h
  split at h
  · next heq =>
      cases h
      exact tree_error heq hitems
  · cases h
  · next r _ heq =>
      obtain ⟨node, rest⟩ := r
      have hcount := weight_of_tree heq
      have hrest := (grounded_of_tree heq hitems).weight_nonneg
      omega

end Postfix

-- =============================================================== the yard

/-- Waiting operators only take operands. -/
theorem operatorsWeight_nonpos (operators : List Operator) : operatorsWeight operators ≤ 0 := by
  induction operators with
  | nil => simp [operatorsWeight]
  | cons op below ih =>
      have hop : op.weight ≤ 0 := by cases op <;> simp [Operator.weight]
      rw [operatorsWeight]
      omega

/-- Where an operand is missing, the output is grounded. -/
theorem Pending.grounded {ts : List Token} {operators : List Operator} {output : List Item}
    (h : Pending ts operators output) : Grounded output := by
  induction h with
  | start => trivial
  | opener _ _ ih => exact ih
  | operator _ _ _ _ ih => exact ih.items _

/-- Moving operators out keeps output grounded, as long as operands suffice
for all of them. -/
theorem grounded_flush {operators : List Operator} {output items : List Item}
    (h : Yard.flush operators output = some items) (houtput : Grounded output)
    (hweight : 0 ≤ operatorsWeight operators + weight output) : Grounded items := by
  fun_induction Yard.flush operators output with
  | case1 => cases h; exact houtput
  | case2 => cases h
  | case3 w below output hw ih =>
      have hbelow := operatorsWeight_nonpos below
      rw [operatorsWeight] at hweight
      refine ih h ⟨by simp, ?_, houtput⟩ ?_
      · simp only [weight_cons, Item.weight]
        omega
      · simp only [weight_cons, Item.weight]
        omega

/-- A yard gives up on an expression for an open parenthesis, a missing
operand or a bad target. -/
theorem Yard.Reads.tree_error {y : Yard} {ts : List Token} {fault : SyntaxFault}
    (h : y.Reads ts) (htree : y.tree = .error fault) : fault.isInner = true := by
  unfold Yard.tree at htree
  split at htree
  · cases htree
    rfl
  · next items hflush =>
      unfold Reads at h
      split at h
      · have hcount := h.weight_eq
        have hitems := grounded_flush hflush h.grounded (by omega)
        have hweight := weight_flush hflush
        rcases Postfix.wholeTree_error htree hitems (by omega) with rfl | rfl <;> rfl
      · obtain ⟨d, -, rfl⟩ := h.flush hflush
        rw [d.wholeTree_items] at htree
        split at htree
        · cases htree
        · cases htree
          rfl

/-- A token that is not taken is rejected for a fault of the inner parser. -/
theorem Yard.feed_rejected {y : Yard} {t : Token} {fault : SyntaxFault} {u : Option Token}
    (h : y.feed t = .error (.rejected fault u)) : fault.isInner = true := by
  unfold Yard.feed at h
  split at h
  · unfold Yard.feedOperand at h
    split at h
    · cases h
    · split at h
      · cases h
      · next hoperand =>
          cases h
          unfold Yard.operand at hoperand
          split at hoperand
          case h_1 => split at hoperand <;> cases hoperand
          all_goals cases hoperand
          rfl
  · unfold Yard.feedOperator at h
    split at h
    · split at h
      · cases h
      · cases h
        rfl
    · split at h
      · cases h
      · cases h
        rfl

-- =============================================================== parsers

/-- A parse that objects to tokens only for reasons found inside a
statement. -/
def Parsed.Regular {α : Type} (r : Parsed α) : Prop :=
  ∀ fault t, r.1 = .error (.rejected fault (some t)) → fault.isInner = true

namespace Parsed

theorem regular_ok {α : Type} (a : α) (c : Cursor) : Regular (.ok a, c) := by
  intro fault t h
  cases h

theorem regular_exhausted {α : Type} (c : Cursor) :
    Regular ((.error .exhausted, c) : Parsed α) := by
  intro fault t h
  cases h

/-- A rejection for a fault of the inner parser is regular. -/
theorem regular_rejected {α : Type} {fault : SyntaxFault} (h : fault.isInner = true)
    (t : Option Token) (c : Cursor) : Regular ((.error (.rejected fault t), c) : Parsed α) := by
  intro fault' t' heq
  cases heq
  exact h

/-- Regular parses in a row are regular. -/
theorem Regular.andThen {α β : Type} {r : Parsed α} {k : α → Cursor → Parsed β} (h : r.Regular)
    (hk : ∀ a c, (k a c).Regular) : (r.andThen k).Regular := by
  rcases r with ⟨failure | a, c⟩
  · intro fault t herror
    cases herror
    exact h fault t rfl
  · exact hk a c

end Parsed

/-- However a yard is run on, the parse it ends in is regular. -/
theorem Yard.Reads.run_regular {y : Yard} {ts : List Token} (h : y.Reads ts)
    (reported : List LexError) (events : List Event) : (y.run reported events).Regular := by
  fun_induction Yard.run y reported events generalizing ts with
  | case1 =>
      intro fault t herror
      cases herror
  | case2 y reported e rest ih => exact ih h
  | case3 y reported t rest hends =>
      intro fault u herror
      unfold Yard.finish at herror
      split at herror
      · cases herror
      · next htree =>
          cases herror
          exact h.tree_error htree
  | case4 y reported t rest hends failure hfeed =>
      intro fault u herror
      cases herror
      exact Yard.feed_rejected hfeed
  | case5 y reported t rest hends y' hfeed ih => exact ih (h.feed hfeed)

namespace Cursor

variable (c : Cursor)

/-- The parse of an expression is regular. -/
theorem expression_regular : c.expression.Regular :=
  (Yard.reads_restart {}).run_regular c.reported c.pending

theorem expect_regular (kind : Kind) {fault : SyntaxFault} (h : fault.isInner = true) :
    (c.expect kind fault).Regular := by
  unfold expect
  split
  · exact Parsed.regular_exhausted _
  · split
    · exact Parsed.regular_ok _ _
    · exact Parsed.regular_rejected h _ _

/-- So is that of a statement of one expression. -/
theorem ended_regular {fault : SyntaxFault} (h : fault.isInner = true) (make : Node → Node) :
    (c.ended fault make).Regular := by
  apply c.expression_regular.andThen
  intro e c
  exact (c.expect_regular _ h).andThen fun _ _ => Parsed.regular_ok _ _

/-- So is that of the end of a declaration. -/
theorem declarationEnd_regular (n : Node) : (c.declarationEnd n).Regular :=
  (c.expect_regular _ rfl).andThen fun _ _ => Parsed.regular_ok _ _

theorem varRest_regular : c.varRest.Regular := by
  apply (c.expect_regular _ rfl).andThen
  intro x c
  split
  · exact Parsed.regular_exhausted _
  · split
    · exact ended_regular _ rfl _
    · exact declarationEnd_regular _ _

theorem simple_regular (kind : Kind) : (c.simple kind).Regular := by
  unfold simple
  split
  · exact ended_regular _ rfl _
  · exact varRest_regular _
  · exact ended_regular _ rfl _

end Cursor

/-- A turn that goes on, or rejects no token for a reason that is a guard. -/
def Turn.Regular : Turn → Prop
  | .done r => ∀ fault t, r.1 = .error (.rejected fault (some t)) → fault.isGuard = false
  | .more _ _ => True

/-- To place a statement in its block is regular. -/
theorem Turn.place_regular (n : Node) (c : Cursor) (blocks : OpenBlocks) :
    (Turn.place n c blocks).Regular := by
  cases blocks with
  | nil =>
      intro fault t herror
      cases herror
  | cons => trivial

namespace Cursor

variable (c : Cursor)

/-- The first turn of a statement is regular. -/
theorem begin_regular (t : Token) (blocks : OpenBlocks) : (c.begin t blocks).Regular := by
  unfold begin
  split
  · trivial
  · have hsimple := c.simple_regular t.kind
    split
    · exact Turn.place_regular _ _ _
    · next heq =>
        rw [heq] at hsimple
        exact fun fault t herror => SyntaxFault.isGuard_of_isInner (hsimple fault t herror)

theorem turn_regular (blocks : OpenBlocks) : (c.turn blocks).Regular := by
  unfold turn
  dsimp only
  split
  · intro fault t herror
    cases herror
  · intro fault t herror
    cases herror
  · exact begin_regular _ _ _
  · split
    · exact Turn.place_regular _ _ _
    · split
      · intro fault t herror
        cases herror
        rfl
      · exact begin_regular _ _ _

/-- No statement is rejected by a guard, whatever blocks are open. -/
theorem statementIn_regular (blocks : OpenBlocks) {fault : SyntaxFault} {t : Token}
    (h : (statementIn blocks c).1 = .error (.rejected fault (some t))) :
    fault.isGuard = false := by
  fun_induction statementIn blocks c with
  | case1 blocks c r hturn =>
      have hregular := c.turn_regular blocks
      rw [hturn] at hregular
      exact hregular fault t h
  | case2 blocks c blocks' c' hturn ih => exact ih h

/-- A program is rejected for no reason that is a guard. -/
theorem program_regular {fault : SyntaxFault} {t : Token}
    (h : c.program.2.1 = some (.rejected fault (some t))) : fault.isGuard = false := by
  obtain ⟨ts, c', -, -, hstops⟩ := c.program_takes
  rw [h] at hstops
  cases hstops with
  | failed _ hstatement => exact c'.statementIn_regular [] (congrArg Prod.fst hstatement)

end Cursor

end Lox

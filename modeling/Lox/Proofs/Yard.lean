/-
The operator yard is an exact parser of drafts.

# Soundness: what the yard holds

Whenever an operand is expected, the tokens read so far are accounted for
by the waiting operators, bottom to top (`Pending`): an opener stands for
its own token, any other operator for a finished left operand and its own
token. After an operand the newest draft lies on top of that (`Ended`), at
a level `l` that the top of the yard does not apply before. Moving one
operator to the output keeps `Ended` and raises `l` to the level of that
operator (`Ended.reduce`); `push`, `closeGroup` and `flush` are loops of
such moves, so each is one induction over the waiting operators.

# Completeness: what a draft does to the yard

Feeding the tokens of a draft of level `l` to a yard that holds against `l`
leaves the yard as it was, but for some operators of that level or tighter
on top, which, once moved out, complete the draft's postfix form (`Adds`,
`Drafts.adds`).
-/
import Lox.Proofs.Draft

namespace Lox

open Grammar (Level Derives levelOf)

-- ========================================================= what can wait

/-- A waiting operator is applied before a looser one, and before one that binds
just as tight if it groups to the left. -/
theorem reducesBefore_iff {w : Operator} {p k : Int} :
    w.reducesBefore p k = true ↔ p < k ∨ (p = k ∧ w.isLeftAssociative = true) := by
  simp [Operator.reducesBefore]

/-- The top of the waiting operators is not applied before an operator of
precedence `k`. -/
def Holds (operators : List Operator) (k : Int) : Prop :=
  ∀ w ∈ operators.head?, w.reducesBefore w.precedence k = false

theorem holds_nil (k : Int) : Holds [] k := by
  intro w hw
  cases hw

/-- Only the top of the waiting operators matters. -/
theorem holds_cons {w : Operator} {below : List Operator} {k : Int} :
    Holds (w :: below) k ↔ k ≤ w.precedence ∧ (w.isLeftAssociative = true → k < w.precedence) := by
  have h : Holds (w :: below) k ↔ w.reducesBefore w.precedence k = false := by
    simp [Holds]
  rw [h, ← Bool.not_eq_true, reducesBefore_iff]
  constructor
  · intro hn
    constructor
    · omega
    · intro hl
      have : ¬ w.precedence = k := fun he => hn (.inr ⟨he, hl⟩)
      omega
  · rintro ⟨hle, hlt⟩ (h | ⟨h, hl⟩)
    · omega
    · have := hlt hl
      omega

/-- Only left-associative operators are as tight as a binary one. -/
theorem isLeftAssociative_of_precedence {w : Operator} {op : BinaryOp}
    (h : w.precedence = op.precedence) : w.isLeftAssociative = true := by
  cases w with
  | binary => rfl
  | unary op' => cases op' <;> cases op <;> exact absurd h (by decide)
  | assign => cases op <;> exact absurd h (by decide)

/-- Prefix operators are the tightest, so nothing is applied before them. -/
theorem holds_prefixed (operators : List Operator) : Holds operators Level.prefixed.bound := by
  cases operators with
  | nil => exact holds_nil _
  | cons w below =>
      rw [holds_cons]
      cases w with
      | unary op => cases op <;> decide
      | binary op => cases op <;> decide
      | assign => decide

/-- What waits for an operator waits for a looser one. -/
theorem Holds.mono {operators : List Operator} {j k : Int} (h : Holds operators k) (hle : j ≤ k) :
    Holds operators j := by
  cases operators with
  | nil => exact holds_nil _
  | cons w below =>
      rw [holds_cons] at h ⊢
      exact ⟨by omega, fun hl => by have := h.2 hl; omega⟩

/-- Nothing waiting is applied before an operand is complete. -/
theorem holds_primary (operators : List Operator) : Holds operators Level.primary.bound :=
  (holds_prefixed operators).mono (by decide)

-- ================================================================ soundness

/-- The level of an operator's left operand. Only operators with two sides
have one. -/
def leftLevel : Operator → Level
  | .binary op => levelOf op
  | _ => .or

/-- `Pending ts operators output`: the tokens `ts` leave these operators
waiting and this output, and an operand comes next. -/
inductive Pending : List Token → List Operator → List Item → Prop where
  | start : Pending [] [] []
  | opener {ts : List Token} {operators : List Operator} {output : List Item} {t : Token}
      {op : UnaryOp} :
      Pending ts operators output → Yard.opener? t.kind = some op →
      Pending (ts ++ [t]) (.unary op :: operators) output
  | operator {ts us : List Token} {operators : List Operator} {output : List Item} {t : Token}
      {op : Operator} {d : Draft} :
      Pending ts operators output → Drafts (leftLevel op) us d →
      Operator.ofKind? t.kind = some op → Holds operators op.precedence →
      Pending (ts ++ us ++ [t]) (op :: operators) (d.items ++ output)

/-- `Ended l ts operators output`: the tokens `ts` end in a draft of level
`l`, and the operators waiting for it do not apply before that level. -/
inductive Ended (l : Level) : List Token → List Operator → List Item → Prop where
  | intro {ts us : List Token} {operators : List Operator} {output : List Item} {d : Draft} :
      Pending ts operators output → Drafts l us d → Holds operators l.bound →
      Ended l (ts ++ us) operators (d.items ++ output)

/-- Between operands, no token is a unary operator. -/
theorem ofKind?_ne_unary {k : Kind} {op : UnaryOp} : Operator.ofKind? k ≠ some (.unary op) := by
  cases k <;> simp [Operator.ofKind?]

/-- Where an operand is expected, an operator is an open parenthesis or a
sign. -/
theorem opener?_cases {k : Kind} {op : UnaryOp} (h : Yard.opener? k = some op) :
    (k = .leftParen ∧ op = .group) ∨ (op ≠ .group ∧ UnaryOp.ofKind? k = some op) := by
  unfold Yard.opener? at h
  split at h
  · next hk => cases h; exact .inl ⟨hk, rfl⟩
  · next hk =>
      refine .inr ⟨?_, h⟩
      rintro rfl
      cases k <;> simp [UnaryOp.ofKind?] at h

/-- Moving the top operator to the output makes the newest draft its
operand. The result is of that operator's level. -/
theorem Ended.reduce {l : Level} {ts : List Token} {w : Operator} {below : List Operator}
    {output : List Item} (h : Ended l ts (w :: below) output) (hw : w ≠ .unary .group) :
    ∃ l', Ended l' ts below (.operator (some w) :: output) ∧ l'.bound = w.precedence := by
  obtain ⟨hp, hd, hh⟩ := h
  rename_i pre us rest d
  rw [holds_cons] at hh
  -- the last operator that waits tells what the draft is an operand of
  cases hp with
  | @opener ts _ _ t op hp hop =>
      rcases opener?_cases hop with ⟨-, rfl⟩ | ⟨hne, hop⟩
      · exact absurd rfl hw
      · have hprec : (Operator.unary op).precedence = Level.prefixed.bound := by
          cases op <;> first | rfl | exact absurd rfl hne
        rw [hprec] at hh ⊢
        have hd' : Drafts .prefixed (t :: us) (.unary op d) := .unary hop (hd.loosen hh.1)
        have he := Ended.intro hp hd' (holds_prefixed below)
        rw [List.append_assoc, List.singleton_append]
        exact ⟨.prefixed, he, rfl⟩
  | @operator ts vs _ out t op dl hp hdl hop hholds =>
      cases w with
      | unary op => exact absurd hop ofKind?_ne_unary
      | binary op =>
          -- it groups to the left, so its right operand binds tighter than it does
          have hlt : l.bound < op.precedence := hh.2 rfl
          have hr : Drafts (levelOf op).tighter us d := by
            refine hd.loosen (Grammar.bound_le_tighter ?_ ?_)
            · rintro rfl
              rw [Grammar.bound_levelOf] at hlt
              omega
            · rw [Grammar.bound_levelOf]
              omega
          have he := Ended.intro hp (.binary hop hdl hr)
            (by rw [Grammar.bound_levelOf]; exact hholds)
          refine ⟨levelOf op, ?_, Grammar.bound_levelOf op⟩
          simpa [Draft.items] using he
      | assign =>
          have he := Ended.intro hp (.assign hop hdl (hd.loosen (Grammar.bound_le_assign l))) hholds
          refine ⟨.assign, ?_, rfl⟩
          simpa [Draft.items] using he

/-- Nothing between operands binds looser than an assignment. -/
theorem ofKind?_precedence_le {k : Kind} {op : Operator} (h : Operator.ofKind? k = some op) :
    op.precedence ≤ Level.assign.bound := by
  cases k <;> cases h <;> decide

/-- An operator that is applied before an incoming one leaves a draft that
fits on the left of the incoming one. -/
theorem precedence_le_leftLevel {w op : Operator} {k : Kind} (hop : Operator.ofKind? k = some op)
    (hw : w.reducesBefore w.precedence op.precedence = true) :
    w.precedence ≤ (leftLevel op).bound := by
  rw [reducesBefore_iff] at hw
  cases op with
  | unary op => exact absurd hop ofKind?_ne_unary
  | binary op =>
      show w.precedence ≤ (levelOf op).bound
      rw [Grammar.bound_levelOf]
      have : (Operator.binary op).precedence = op.precedence := rfl
      omega
  | assign =>
      have hassign : Operator.assign.precedence = 16 := rfl
      show w.precedence ≤ 15
      rcases hw with hw | ⟨hw, hl⟩
      · omega
      · -- assignments meet their equals only at the right
        cases w with
        | binary op => cases op <;> exact absurd hw (by decide)
        | unary | assign => cases hl

/-- An open parenthesis waits until it is closed. -/
theorem reducesBefore_group {k : Kind} {op : Operator} (hop : Operator.ofKind? k = some op) :
    (Operator.unary .group).reducesBefore (Operator.unary .group).precedence op.precedence
      = false := by
  have hle := ofKind?_precedence_le hop
  rw [← Bool.not_eq_true, reducesBefore_iff]
  have h₁ : (Operator.unary .group).precedence = 100 := rfl
  have h₂ : Level.assign.bound = 16 := rfl
  omega

/-- An operator with two sides ends its left operand and waits for the right
one. -/
theorem Ended.push {l : Level} {ts : List Token} {operators : List Operator} {output : List Item}
    {t : Token} {op : Operator} (h : Ended l ts operators output)
    (hop : Operator.ofKind? t.kind = some op) (hl : l.bound ≤ (leftLevel op).bound) :
    Pending (ts ++ [t]) (Yard.push op operators output).1 (Yard.push op operators output).2 := by
  fun_induction Yard.push op operators output generalizing l with
  | case1 output =>
      obtain ⟨hp, hd, -⟩ := h
      exact .operator hp (hd.loosen hl) hop (holds_nil _)
  | case2 w below output hw ih =>
      have hne : w ≠ .unary .group := by
        rintro rfl
        rw [reducesBefore_group hop] at hw
        cases hw
      obtain ⟨l', he, hl'⟩ := h.reduce hne
      exact ih he (by rw [hl']; exact precedence_le_leftLevel hop hw)
  | case3 w below output hw =>
      obtain ⟨hp, hd, -⟩ := h
      refine .operator hp (hd.loosen hl) hop ?_
      simpa [Holds] using hw

/-- A closing parenthesis makes a group of the draft since the open one. -/
theorem Ended.closeGroup {l : Level} {ts : List Token} {operators operators' : List Operator}
    {output output' : List Item} {t : Token} (h : Ended l ts operators output)
    (ht : t.kind = .rightParen)
    (hclose : Yard.closeGroup operators output = some (operators', output')) :
    Ended .primary (ts ++ [t]) operators' output' := by
  fun_induction Yard.closeGroup operators output generalizing l with
  | case1 => cases hclose
  | case2 below output =>
      cases hclose
      obtain ⟨hp, hd, -⟩ := h
      rename_i pre us rest d
      cases hp with
      | @opener ts _ _ left op hp hop =>
          rcases opener?_cases hop with ⟨hk, -⟩ | ⟨hne, -⟩
          · have hd' := Drafts.group hk ht (hd.loosen (Grammar.bound_le_assign l))
            have he := Ended.intro hp hd' (holds_primary _)
            simpa [Draft.items] using he
          · exact absurd rfl hne
      | operator hp hdl hop hh => exact absurd hop ofKind?_ne_unary
  | case3 w below output hw ih =>
      obtain ⟨l', he, -⟩ := h.reduce hw
      exact ih he hclose

/-- If no open parenthesis is left at the end, all that was read is one draft. -/
theorem Ended.flush {l : Level} {ts : List Token} {operators : List Operator}
    {output items : List Item} (h : Ended l ts operators output)
    (hflush : Yard.flush operators output = some items) :
    ∃ d, Drafts .assign ts d ∧ items = d.items := by
  fun_induction Yard.flush operators output generalizing l with
  | case1 output =>
      cases hflush
      obtain ⟨hp, hd, -⟩ := h
      cases hp
      exact ⟨_, hd.loosen (Grammar.bound_le_assign l), by simp⟩
  | case2 => cases hflush
  | case3 w below output hw ih =>
      obtain ⟨l', he, -⟩ := h.reduce hw
      exact ih he hflush

-- ------------------------------------------------------------- the count

/-- The count of the waiting operators. -/
def operatorsWeight : List Operator → Int
  | [] => 0
  | op :: below => op.weight + operatorsWeight below

/-- Where an operand is missing, the output counts one too few for the
operators that wait. -/
theorem Pending.weight_eq {ts : List Token} {operators : List Operator} {output : List Item}
    (h : Pending ts operators output) : operatorsWeight operators + weight output = 0 := by
  induction h with
  | start => rfl
  | opener _ _ ih => simpa [operatorsWeight, Operator.weight] using ih
  | @operator _ _ _ _ _ op d _ _ hop _ ih =>
      have hw : op.weight = -1 := by
        cases op with
        | unary => exact absurd hop ofKind?_ne_unary
        | binary | assign => rfl
      have hd := d.weight_items
      simp only [operatorsWeight, weight_append] at ih ⊢
      omega

/-- Flushing moves all waiting operators to the output. -/
theorem weight_flush {operators : List Operator} {output items : List Item}
    (h : Yard.flush operators output = some items) :
    weight items = operatorsWeight operators + weight output := by
  fun_induction Yard.flush operators output with
  | case1 => cases h; simp [operatorsWeight]
  | case2 => cases h
  | case3 w below output hw ih =>
      have := ih h
      simp only [operatorsWeight, weight_cons, Item.weight] at this ⊢
      omega

-- -------------------------------------------------------- the invariant

namespace Yard

/-- The tokens `ts` account for the state of a yard. -/
def Reads (y : Yard) (ts : List Token) : Prop :=
  if y.expectOperand then Pending ts y.operators y.output
  else Ended .primary ts y.operators y.output

/-- A yard that was restarted has read nothing. -/
theorem reads_restart (y : Yard) : y.restart.Reads [] :=
  Pending.start

/-- All that one token can do to a yard: where an operand is expected it
waits or goes out, and after an operand it closes a group or is pushed. -/
theorem feed_cases {y y' : Yard} {t : Token} (h : y.feed t = .ok y') :
    (∃ op, opener? t.kind = some op ∧ y.expectOperand = true
        ∧ y' = { y with operators := .unary op :: y.operators })
      ∨ (∃ node, operand t = .ok node ∧ y.expectOperand = true
          ∧ y' = { y with output := .operand node :: y.output, expectOperand := false })
      ∨ (t.kind = .rightParen ∧ y.expectOperand = false ∧ ∃ operators output,
          closeGroup y.operators y.output = some (operators, output)
          ∧ y' = { y with operators, output })
      ∨ (∃ op, Operator.ofKind? t.kind = some op ∧ y.expectOperand = false
          ∧ y' = ⟨(push op y.operators y.output).1, (push op y.operators y.output).2, true⟩) := by
  unfold Yard.feed at h
  by_cases hexp : y.expectOperand = true
  · rw [if_pos hexp, feedOperand] at h
    split at h
    · next op hop =>
        cases h
        exact .inl ⟨op, hop, hexp, rfl⟩
    · split at h
      · next node hnode =>
          cases h
          exact .inr (.inl ⟨node, hnode, hexp, rfl⟩)
      · cases h
  · rw [if_neg hexp, feedOperator] at h
    have hexp := Bool.eq_false_iff.2 hexp
    split at h
    · next hk =>
        split at h
        · next operators output hclose =>
            cases h
            exact .inr (.inr (.inl ⟨hk, hexp, operators, output, hclose, rfl⟩))
        · cases h
    · split at h
      · next op hop =>
          cases h
          exact .inr (.inr (.inr ⟨op, hop, hexp, rfl⟩))
      · cases h

/-- One token more is accounted for. -/
theorem Reads.feed {y y' : Yard} {ts : List Token} {t : Token} (h : y.Reads ts)
    (hfeed : y.feed t = .ok y') : y'.Reads (ts ++ [t]) := by
  unfold Reads at h ⊢
  rcases feed_cases hfeed with ⟨op, hop, hexp, rfl⟩ | ⟨node, hnode, hexp, rfl⟩
    | ⟨ht, hexp, operators, output, hclose, rfl⟩ | ⟨op, hop, hexp, rfl⟩
  · rw [if_pos hexp] at h ⊢
    exact .opener h hop
  · rw [if_pos hexp] at h
    exact .intro h (.operand hnode) (holds_primary _)
  · rw [if_neg (Bool.eq_false_iff.1 hexp)] at h ⊢
    exact h.closeGroup ht hclose
  · rw [if_neg (Bool.eq_false_iff.1 hexp)] at h
    exact h.push hop (Grammar.bound_primary_le _)

/-- Feed some tokens, up to the first failure. -/
def feedAll (y : Yard) : List Token → Except ParseFailure Yard
  | [] => .ok y
  | t :: ts =>
      match y.feed t with
      | .ok y' => y'.feedAll ts
      | .error failure => .error failure

theorem feedAll_append (y : Yard) (us vs : List Token) :
    y.feedAll (us ++ vs) = (y.feedAll us).bind fun y' => y'.feedAll vs := by
  induction us generalizing y with
  | nil => rfl
  | cons t us ih =>
      simp only [List.cons_append, feedAll]
      cases y.feed t with
      | error failure => rfl
      | ok y' => exact ih y'

/-- The account of the yard goes on with the tokens fed. -/
theorem Reads.feedAll {y y' : Yard} {ts us : List Token} (h : y.Reads ts)
    (hfeed : y.feedAll us = .ok y') : y'.Reads (ts ++ us) := by
  induction us generalizing y ts with
  | nil =>
      cases hfeed
      rwa [List.append_nil]
  | cons t us ih =>
      simp only [Yard.feedAll] at hfeed
      split at hfeed
      · next z hz =>
          have := ih (h.feed hz) hfeed
          rwa [List.append_assoc, List.singleton_append] at this
      · cases hfeed

/-- A yard that gives a tree has read an expression with that tree. -/
theorem Reads.tree {y : Yard} {ts : List Token} {e : Node} (h : y.Reads ts)
    (htree : y.tree = .ok e) : Derives .assign ts e := by
  unfold Yard.tree at htree
  split at htree
  · cases htree
  · next items hflush =>
      unfold Reads at h
      split at h
      · -- an operand is missing, so the count of the output is not one
        have h₁ := h.weight_eq
        have h₂ := weight_flush hflush
        have h₃ := Postfix.weight_of_wholeTree htree
        omega
      · obtain ⟨d, hd, rfl⟩ := h.flush hflush
        rw [d.wholeTree_items] at htree
        split at htree
        · next node hn =>
            cases htree
            exact derives_iff_drafts.2 ⟨d, hd, hn⟩
        · cases htree

end Yard

-- ============================================================ completeness

/-- The output after moving some operators to it, the first one first. -/
def drain : List Operator → List Item → List Item
  | [], output => output
  | w :: below, output => drain below (.operator (some w) :: output)

theorem drain_append (xs ys : List Operator) (output : List Item) :
    drain (xs ++ ys) output = drain ys (drain xs output) := by
  induction xs generalizing output with
  | nil => rfl
  | cons w xs ih => exact ih _

/-- Pushing an operator drains those that apply before it, and no others. -/
theorem push_append {op : Operator} {tops operators : List Operator} {output : List Item}
    (htops : ∀ w ∈ tops, w.reducesBefore w.precedence op.precedence = true)
    (hholds : Holds operators op.precedence) :
    Yard.push op (tops ++ operators) output = (op :: operators, drain tops output) := by
  induction tops generalizing output with
  | nil =>
      cases operators with
      | nil => rfl
      | cons w below =>
          have hw : w.reducesBefore w.precedence op.precedence = false := hholds w rfl
          simp [Yard.push, hw, drain]
  | cons w tops ih =>
      have hw := htops w (List.mem_cons_self ..)
      rw [List.cons_append, Yard.push, if_pos hw,
        ih fun x hx => htops x (List.mem_cons_of_mem _ hx)]
      rfl

/-- Closing a group drains the operators above its parenthesis. -/
theorem closeGroup_append {tops operators : List Operator} {output : List Item}
    (htops : ∀ w ∈ tops, w ≠ .unary .group) :
    Yard.closeGroup (tops ++ .unary .group :: operators) output
      = some (operators, .operator (some (.unary .group)) :: drain tops output) := by
  induction tops generalizing output with
  | nil => rfl
  | cons w tops ih =>
      have hw := htops w (List.mem_cons_self ..)
      rw [List.cons_append, Yard.closeGroup, if_neg hw,
        ih fun x hx => htops x (List.mem_cons_of_mem _ hx)]
      rfl

/-- Without an open parenthesis, flushing drains everything. -/
theorem flush_eq_drain {operators : List Operator} {output : List Item}
    (h : ∀ w ∈ operators, w ≠ .unary .group) :
    Yard.flush operators output = some (drain operators output) := by
  induction operators generalizing output with
  | nil => rfl
  | cons w below ih =>
      have hw := h w (List.mem_cons_self ..)
      rw [Yard.flush, if_neg hw, ih fun x hx => h x (List.mem_cons_of_mem _ hx)]
      rfl

-- --------------------------------------------------------- single tokens

theorem feed_opener {operators : List Operator} {output : List Item} {t : Token} {op : UnaryOp}
    (h : Yard.opener? t.kind = some op) :
    Yard.feed ⟨operators, output, true⟩ t = .ok ⟨.unary op :: operators, output, true⟩ := by
  simp [Yard.feed, Yard.feedOperand, h]

/-- An operand token opens nothing. -/
theorem opener?_of_operand {t : Token} {node : Node} (h : Yard.operand t = .ok node) :
    Yard.opener? t.kind = none := by
  unfold Yard.operand at h
  split at h
  case h_7 => cases h
  all_goals
    next hk =>
      rw [hk]
      rfl

theorem feed_operand {operators : List Operator} {output : List Item} {t : Token} {node : Node}
    (h : Yard.operand t = .ok node) :
    Yard.feed ⟨operators, output, true⟩ t = .ok ⟨operators, .operand node :: output, false⟩ := by
  simp [Yard.feed, Yard.feedOperand, opener?_of_operand h, h]

theorem feed_operator {operators : List Operator} {output : List Item} {t : Token} {op : Operator}
    (h : Operator.ofKind? t.kind = some op) :
    Yard.feed ⟨operators, output, false⟩ t
      = .ok ⟨(Yard.push op operators output).1, (Yard.push op operators output).2, true⟩ := by
  have hne : t.kind ≠ .rightParen := by
    intro hk
    rw [hk] at h
    cases h
  simp [Yard.feed, Yard.feedOperator, hne, h]

theorem feed_close {operators operators' : List Operator} {output output' : List Item} {t : Token}
    (ht : t.kind = .rightParen)
    (h : Yard.closeGroup operators output = some (operators', output')) :
    Yard.feed ⟨operators, output, false⟩ t = .ok ⟨operators', output', false⟩ := by
  simp [Yard.feed, Yard.feedOperator, ht, h]

-- ------------------------------------------------------------ all tokens

/-- An open parenthesis has no level. -/
theorem ne_group_of_precedence_le {w : Operator} {l : Level} (h : w.precedence ≤ l.bound) :
    w ≠ .unary .group := by
  rintro rfl
  have h₁ : (Operator.unary .group).precedence = 100 := rfl
  have h₂ := Grammar.bound_le_assign l
  have h₃ : Level.assign.bound = 16 := rfl
  omega

/-- Operators no looser than the left operand of a two-sided operator are
applied before it. -/
theorem reducesBefore_of_le {w op : Operator} {k : Kind} (hop : Operator.ofKind? k = some op)
    (h : w.precedence ≤ (leftLevel op).bound) :
    w.reducesBefore w.precedence op.precedence = true := by
  rw [reducesBefore_iff]
  cases op with
  | unary op => exact absurd hop ofKind?_ne_unary
  | binary op =>
      change w.precedence ≤ (levelOf op).bound at h
      rw [Grammar.bound_levelOf] at h
      have hprec : (Operator.binary op).precedence = op.precedence := rfl
      by_cases heq : w.precedence = op.precedence
      · exact .inr ⟨heq, isLeftAssociative_of_precedence heq⟩
      · exact .inl (by omega)
  | assign =>
      have h₁ : Operator.assign.precedence = 16 := rfl
      change w.precedence ≤ 15 at h
      exact .inl (by omega)

/-- What the tokens of a draft do to a yard in which an operand is expected:
some operators of its level or tighter stay on top, and would complete its
postfix form. -/
def Adds (l : Level) (ts : List Token) (d : Draft) : Prop :=
  ∀ operators output, Holds operators l.bound →
    ∃ tops output',
      Yard.feedAll ⟨operators, output, true⟩ ts = .ok ⟨tops ++ operators, output', false⟩
      ∧ (∀ w ∈ tops, w.precedence ≤ l.bound) ∧ drain tops output' = d.items ++ output

/-- The step for an operator with two sides: its left operand goes out, it
waits, and its right operand comes on top of it. -/
theorem Adds.operator {l r : Level} {op : Operator} {t : Token} {us vs : List Token}
    {left right d : Draft} (hop : Operator.ofKind? t.kind = some op)
    (hl : Adds (leftLevel op) us left) (hr : Adds r vs right)
    (hleft : (leftLevel op).bound ≤ op.precedence) (hright : r.bound ≤ op.precedence)
    (hrl : op.isLeftAssociative = true → r.bound < op.precedence) (hlevel : l.bound = op.precedence)
    (hitems : d.items = .operator (some op) :: (right.items ++ left.items)) :
    Adds l (us ++ t :: vs) d := by
  intro operators output hholds
  rw [hlevel] at hholds
  obtain ⟨tops, out₁, hfeed₁, htops₁, hdrain₁⟩ := hl operators output (hholds.mono hleft)
  have hpush : Yard.push op (tops ++ operators) out₁ = (op :: operators, left.items ++ output) := by
    rw [push_append (fun w hw => reducesBefore_of_le hop (htops₁ w hw)) hholds, hdrain₁]
  obtain ⟨tops', out₂, hfeed₂, htops₂, hdrain₂⟩ :=
    hr (op :: operators) (left.items ++ output) (holds_cons.2 ⟨hright, hrl⟩)
  refine ⟨tops' ++ [op], out₂, ?_, ?_, ?_⟩
  · rw [Yard.feedAll_append, hfeed₁]
    show Yard.feedAll _ (t :: vs) = _
    rw [Yard.feedAll, feed_operator hop, hpush]
    simpa using hfeed₂
  · intro w hw
    rcases List.mem_append.1 hw with hw | hw
    · have := htops₂ w hw
      omega
    · rw [List.mem_singleton.1 hw]
      omega
  · rw [drain_append, hdrain₂, hitems]
    simp [drain]

/-- All signs bind equally tight. -/
theorem precedence_of_ofKind? {k : Kind} {op : UnaryOp} (h : UnaryOp.ofKind? k = some op) :
    (Operator.unary op).precedence = Level.prefixed.bound := by
  cases k <;> cases h <;> rfl

/-- A sign is taken where an operand is expected. -/
theorem opener?_of_ofKind? {k : Kind} {op : UnaryOp} (h : UnaryOp.ofKind? k = some op) :
    Yard.opener? k = some op := by
  cases k <;> first | exact h | cases h

/-- Every draft is added by its tokens, by induction over the grammar. -/
theorem Drafts.adds {l : Level} {ts : List Token} {d : Draft} (h : Drafts l ts d) :
    Adds l ts d := by
  induction h with
  | operand ht =>
      -- by induction over the grammar; what waited before stays below
      intro operators output _
      refine ⟨[], _, ?_, fun w hw => absurd hw List.not_mem_nil, rfl⟩
      rw [Yard.feedAll, feed_operand ht]
      rfl
  | @group left right ts d hleft hright _ ih =>
      intro operators output _
      -- the open parenthesis holds back all that waits until it is closed
      have hop : Yard.opener? left.kind = some .group := by rw [hleft]; rfl
      obtain ⟨tops, out₁, hfeed, htops, hdrain⟩ :=
        ih (.unary .group :: operators) output (holds_cons.2 (by decide))
      have hclose : Yard.closeGroup (tops ++ .unary .group :: operators) out₁
          = some (operators, .operator (some (.unary .group)) :: (d.items ++ output)) := by
        rw [closeGroup_append fun w hw => ne_group_of_precedence_le (htops w hw), hdrain]
      refine ⟨[], _, ?_, fun w hw => absurd hw List.not_mem_nil, rfl⟩
      rw [Yard.feedAll, feed_opener hop]
      show Yard.feedAll _ (ts ++ [right]) = _
      rw [Yard.feedAll_append, hfeed]
      show Yard.feedAll _ [right] = _
      rw [Yard.feedAll, feed_close hright hclose]
      rfl
  | @unary op t ts d hop _ ih =>
      intro operators output _
      have hprec := precedence_of_ofKind? hop
      obtain ⟨tops, out₁, hfeed, htops, hdrain⟩ :=
        ih (.unary op :: operators) output
          (holds_cons.2 ⟨by omega, fun hl => by cases hl⟩)
      refine ⟨tops ++ [.unary op], out₁, ?_, ?_, ?_⟩
      · rw [Yard.feedAll, feed_opener (opener?_of_ofKind? hop)]
        simpa using hfeed
      · intro w hw
        rcases List.mem_append.1 hw with hw | hw
        · exact htops w hw
        · rw [List.mem_singleton.1 hw]
          omega
      · rw [drain_append, hdrain]
        rfl
  | @binary op t us vs left right hop _ _ ihl ihr =>
      have hlevel := Grammar.bound_levelOf op
      have hlt := Grammar.bound_tighter_levelOf_lt op
      have hprec : (Operator.binary op).precedence = op.precedence := rfl
      have hleft : (leftLevel (.binary op)).bound = op.precedence := hlevel
      exact Adds.operator hop ihl ihr (by omega) (by omega) (fun _ => by omega) (by omega) rfl
  | @assign t us vs target value hop _ _ ihl ihr =>
      exact Adds.operator hop ihl ihr (by decide) (by decide) (fun hl => by cases hl) rfl rfl
  | @tighter l ts d _ ih =>
      intro operators output hholds
      have hle := Grammar.bound_tighter_le l
      obtain ⟨tops, out₁, hfeed, htops, hdrain⟩ := ih operators output (hholds.mono hle)
      exact ⟨tops, out₁, hfeed, fun w hw => Int.le_trans (htops w hw) hle, hdrain⟩

/-- A restarted yard that is fed the tokens of an expression gives its
tree. -/
theorem feedAll_of_derives {ts : List Token} {e : Node} (h : Derives .assign ts e) (y : Yard) :
    ∃ y', y.restart.feedAll ts = .ok y' ∧ y'.tree = .ok e := by
  obtain ⟨d, hd, hn⟩ := derives_iff_drafts.1 h
  obtain ⟨tops, output, hfeed, htops, hdrain⟩ := hd.adds [] [] (holds_nil _)
  refine ⟨_, hfeed, ?_⟩
  have hflush : Yard.flush (tops ++ []) output = some d.items := by
    rw [List.append_nil, flush_eq_drain fun w hw => ne_group_of_precedence_le (htops w hw), hdrain,
      List.append_nil]
  unfold Yard.tree
  simp only [hflush, d.wholeTree_items, hn]

end Lox

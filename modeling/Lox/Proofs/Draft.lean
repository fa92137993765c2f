/-
The grammar of drafts, between the yard's numbers and the grammar's levels.

The yard compares precedences; the grammar has levels. A level's number is
the precedence of its operators (`Level.bound`), and the first section says
that the two orders agree: no level lies between a level and the next
tighter one, and a binary operator has the number of its level.

`Drafts l ts d` is the grammar with the loose assignment rule
`assign -> or '=' assign`: what stands on the left of an assignment is
looked at only when the tree is built. Trees are the drafts whose targets
are names (`derives_iff_drafts`), so a parser of drafts that folds its
result back is a parser of the grammar.
-/
import Lox.Yard
import Lox.Proofs.Grammar
import Lox.Proofs.Postfix

namespace Lox

open Grammar (Level Derives)

-- ======================================================= levels as numbers

namespace Grammar

/-- The precedence of the operators of a level. The tightest level has no
operators; its number is below all precedences. -/
def Level.bound : Level → Int
  | .assign => 16
  | .or => 15
  | .and => 14
  | .equality => 10
  | .relation => 9
  | .sum => 6
  | .product => 5
  | .prefixed => 3
  | .primary => 0

/-- The level of a binary operator. -/
def levelOf : BinaryOp → Level
  | .or => .or
  | .and => .and
  | .equalTo | .notEqualTo => .equality
  | .lessThan | .greaterThan | .lessThanOrEqualTo | .greaterThanOrEqualTo => .relation
  | .plus | .minus => .sum
  | .times | .div => .product

/-- The grammar's table of binary operators is the parser's. -/
theorem binary?_eq_some_iff {k : Kind} {l : Level} {op : BinaryOp} :
    binary? k = some (l, op) ↔ Operator.ofKind? k = some (.binary op) ∧ levelOf op = l := by
  constructor
  · intro h
    cases k <;> cases h <;> exact ⟨rfl, rfl⟩
  · rintro ⟨h, rfl⟩
    cases k <;> cases h <;> rfl

/-- The level of an operator stands for its precedence. -/
theorem bound_levelOf (op : BinaryOp) : (levelOf op).bound = op.precedence := by
  cases op <;> rfl

/-- The right operand binds tighter than its operator. -/
theorem bound_tighter_levelOf_lt (op : BinaryOp) :
    (levelOf op).tighter.bound < op.precedence := by
  cases op <;> decide

/-- No level lies between a level and the next tighter one. -/
theorem bound_le_tighter {l l' : Level} (hne : l ≠ l') (hle : l.bound ≤ l'.bound) :
    l.bound ≤ l'.tighter.bound := by
  cases l <;> cases l' <;> first | decide | exact absurd rfl hne | exact absurd hle (by decide)

theorem bound_tighter_le (l : Level) : l.tighter.bound ≤ l.bound := by
  cases l <;> decide

theorem bound_primary_le (l : Level) : Level.primary.bound ≤ l.bound := by
  cases l <;> decide

theorem bound_le_assign (l : Level) : l.bound ≤ Level.assign.bound := by
  cases l <;> decide

/-- Climbing from the tightest level reaches all. -/
theorem Level.climb {P : Level → Prop} (primary : P .primary)
    (step : ∀ l : Level, P l.tighter → P l) (l : Level) : P l := by
  have prefixed : P .prefixed := step .prefixed primary
  have product : P .product := step .product prefixed
  have sum : P .sum := step .sum product
  have relation : P .relation := step .relation sum
  have equality : P .equality := step .equality relation
  have and : P .and := step .and equality
  have or : P .or := step .or and
  have assign : P .assign := step .assign or
  cases l <;> assumption

/-- What steps to looser levels holds of every level looser than one of which
it holds. -/
theorem Level.loosen {P : Level → Prop} (step : ∀ l : Level, P l.tighter → P l) {l l' : Level}
    (h : P l) (hle : l.bound ≤ l'.bound) : P l' := by
  induction l' using Level.climb with
  | primary =>
      have heq : l = .primary := by
        cases l <;> first | rfl | exact absurd hle (by decide)
      exact heq ▸ h
  | step l' ih =>
      by_cases heq : l = l'
      · exact heq ▸ h
      · exact step l' (ih (bound_le_tighter heq hle))

/-- A derivation at some level is one at every looser level. -/
theorem Derives.loosen {l l' : Level} {ts : List Token} {e : Node} (h : Derives l ts e)
    (hle : l.bound ≤ l'.bound) : Derives l' ts e :=
  Level.loosen (P := (Derives · ts e)) (fun _ => .tighter) h hle

end Grammar

open Grammar (levelOf)

-- ================================================================ drafts

/-- The grammar of drafts: as for trees, but an assignment may have any
expression of level `or` on its left. Terminals are read off the parser's
own tables. -/
inductive Drafts : Level → List Token → Draft → Prop where
  | operand {t : Token} {node : Node} :
      Yard.operand t = .ok node → Drafts .primary [t] (.operand node)
  | group {left right : Token} {ts : List Token} {d : Draft} :
      left.kind = .leftParen → right.kind = .rightParen → Drafts .assign ts d →
      Drafts .primary (left :: (ts ++ [right])) (.unary .group d)
  | unary {op : UnaryOp} {t : Token} {ts : List Token} {d : Draft} :
      UnaryOp.ofKind? t.kind = some op → Drafts .prefixed ts d →
      Drafts .prefixed (t :: ts) (.unary op d)
  | binary {op : BinaryOp} {t : Token} {us vs : List Token} {left right : Draft} :
      Operator.ofKind? t.kind = some (.binary op) → Drafts (levelOf op) us left →
      Drafts (levelOf op).tighter vs right →
      Drafts (levelOf op) (us ++ t :: vs) (.binary op left right)
  | assign {t : Token} {us vs : List Token} {target value : Draft} :
      Operator.ofKind? t.kind = some .assign → Drafts .or us target → Drafts .assign vs value →
      Drafts .assign (us ++ t :: vs) (.assign target value)
  | tighter {l : Level} {ts : List Token} {d : Draft} :
      Drafts l.tighter ts d → Drafts l ts d

/-- A draft of some level is one of every looser level. -/
theorem Drafts.loosen {l l' : Level} {ts : List Token} {d : Draft} (h : Drafts l ts d)
    (hle : l.bound ≤ l'.bound) : Drafts l' ts d :=
  Level.loosen (P := (Drafts · ts d)) (fun _ => .tighter) h hle

-- ========================================================== trees of drafts

/-- The grammar's table of prefix operators is the parser's. -/
theorem prefixed?_eq (k : Kind) : Grammar.prefixed? k = UnaryOp.ofKind? k := by
  cases k <;> rfl

/-- The token of a literal is an operand of the yard. -/
theorem operand_of_literal? {t : Token} {v : Value} (h : Grammar.literal? t = some v) :
    Yard.operand t = .ok (.literal v) := by
  unfold Grammar.literal? at h
  unfold Yard.operand
  split at h <;> simp_all
  obtain ⟨x, hx, rfl⟩ := h
  rw [hx]

theorem operand_of_identifier {t : Token} (h : t.kind = .identifier) :
    Yard.operand t = .ok (.variable t.lexeme) := by
  simp [Yard.operand, h]

/-- An operand token is a literal or a name. -/
theorem operand_cases {t : Token} {node : Node} (h : Yard.operand t = .ok node) :
    (∃ v, Grammar.literal? t = some v ∧ node = .literal v)
      ∨ (t.kind = .identifier ∧ node = .variable t.lexeme) := by
  unfold Yard.operand at h
  unfold Grammar.literal?
  split at h
  case h_1 hk =>
    split at h
    · next x hx => cases h; exact .inl ⟨.real x, by simp [hk, hx], rfl⟩
    · cases h
  case h_6 hk => cases h; exact .inr ⟨hk, rfl⟩
  case h_7 => cases h
  all_goals
    next hk =>
      cases h
      exact .inl ⟨_, by simp only [hk], rfl⟩

/-- An operand is one token, at whatever level it is seen. -/
theorem Drafts.operand_inv {l : Level} {ts : List Token} {node : Node}
    (h : Drafts l ts (.operand node)) : ∃ t, ts = [t] ∧ Yard.operand t = .ok node := by
  generalize hd : Draft.operand node = d at h
  induction h with
  | operand ht => cases hd; exact ⟨_, rfl, ht⟩
  | tighter _ ih => exact ih hd
  | group | unary | binary | assign => cases hd

/-- What the grammar derives is a draft of the tree. -/
theorem drafts_of_derives {l : Level} {ts : List Token} {e : Node} (h : Derives l ts e) :
    ∃ d, Drafts l ts d ∧ d.node? = some e := by
  induction h with
  | @assignment x eq ts value hx heq _ ih =>
      obtain ⟨d, hd, hn⟩ := ih
      have htarget : Drafts .or [x] (.operand (.variable x.lexeme)) :=
        (Drafts.operand (operand_of_identifier hx)).loosen (by decide)
      have hop : Operator.ofKind? eq.kind = some .assign := by rw [heq]; rfl
      exact ⟨_, .assign hop htarget hd, by simp [Draft.node?, Draft.name?, hn]⟩
  | binary hk _ _ ihl ihr =>
      obtain ⟨hop, rfl⟩ := Grammar.binary?_eq_some_iff.1 hk
      obtain ⟨dl, hdl, hnl⟩ := ihl
      obtain ⟨dr, hdr, hnr⟩ := ihr
      exact ⟨_, .binary hop hdl hdr, by simp [Draft.node?, hnl, hnr]⟩
  | unary hk _ ih =>
      obtain ⟨d, hd, hn⟩ := ih
      rw [prefixed?_eq] at hk
      exact ⟨_, .unary hk hd, by simp [Draft.node?, hn]⟩
  | literal hv => exact ⟨_, .operand (operand_of_literal? hv), rfl⟩
  | name hx => exact ⟨_, .operand (operand_of_identifier hx), rfl⟩
  | group hl hr _ ih =>
      obtain ⟨d, hd, hn⟩ := ih
      exact ⟨_, .group hl hr hd, by simp [Draft.node?, hn]⟩
  | tighter _ ih =>
      obtain ⟨d, hd, hn⟩ := ih
      exact ⟨d, .tighter hd, hn⟩

/-- A draft that has a tree is derived by the grammar. -/
theorem derives_of_drafts {l : Level} {ts : List Token} {d : Draft} {e : Node}
    (h : Drafts l ts d) (hn : d.node? = some e) : Derives l ts e := by
  induction h generalizing e with
  | operand ht =>
      cases hn
      rcases operand_cases ht with ⟨v, hv, rfl⟩ | ⟨hx, rfl⟩
      · exact .literal hv
      · exact .name hx
  | group hl hr _ ih =>
      obtain ⟨e', he', rfl⟩ := Option.map_eq_some_iff.1 hn
      exact .group hl hr (ih he')
  | unary hk _ ih =>
      obtain ⟨e', he', rfl⟩ := Option.map_eq_some_iff.1 hn
      exact .unary (by rw [prefixed?_eq]; exact hk) (ih he')
  | binary hop _ _ ihl ihr =>
      simp only [Draft.node?] at hn
      split at hn
      · next hl hr =>
          cases hn
          exact .binary (Grammar.binary?_eq_some_iff.2 ⟨hop, rfl⟩) (ihl hl) (ihr hr)
      · cases hn
  | @assign t us vs target value hop htarget _ _ ihv =>
      simp only [Draft.node?] at hn
      split at hn
      · next x v hx hv =>
          cases hn
          -- a target with a name is a name, hence one token
          have hd : target = .operand (.variable x) := by
            unfold Draft.name? at hx
            split at hx <;> simp_all
          subst hd
          obtain ⟨y, rfl, hy⟩ := htarget.operand_inv
          have heq : t.kind = .equal := by
            generalize t.kind = k at hop
            cases k <;> simp_all [Operator.ofKind?]
          rcases operand_cases hy with ⟨_, _, hnode⟩ | ⟨hk, hnode⟩
          · cases hnode
          · cases hnode
            exact .assignment hk heq (ihv hv)
      · cases hn
  | tighter _ ih => exact .tighter (ih hn)

/-- A derivation of a tree is one of a draft that has this tree. -/
theorem derives_iff_drafts {l : Level} {ts : List Token} {e : Node} :
    Derives l ts e ↔ ∃ d, Drafts l ts d ∧ d.node? = some e :=
  ⟨drafts_of_derives, fun ⟨_, hd, hn⟩ => derives_of_drafts hd hn⟩

end Lox

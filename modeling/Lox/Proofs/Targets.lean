/-
Where assignments stand in an expression.

The fold objects to an assignment whose left side is not a name. On tokens
this is a matter of the two tokens before the equals sign: a name, and
before that an open parenthesis, another equals sign, or nothing
(`EndsInTarget`). So it can be seen token by token with a little memory, the
`Mark`. In a draft all equals signs stand behind targets exactly if it has a
tree (`Drafts.targeted_iff`). The induction over the grammar needs no memory
of what comes before an operand: short of the loosest level, equals signs
occur only within parentheses.

For the same reason an equals sign outside all parentheses is one that waits
in the yard (`Pending.assigns_iff`).
-/
import Lox.Proofs.Automaton

namespace Lox

open Grammar (Level levelOf)

-- ============================================================ the targets

/-- The tokens end in a name that stands at their start, right after an open
parenthesis or right after an equals sign. -/
def EndsInTarget (ts : List Token) : Prop :=
  ∃ before x, ts = before ++ [x] ∧ x.kind = .identifier
    ∧ ∀ t ∈ before.getLast?, t.kind = .leftParen ∨ t.kind = .equal

/-- Some equals sign does not stand right after such a name. -/
def Misplaced (ts : List Token) : Prop :=
  ∃ us eq vs, ts = us ++ eq :: vs ∧ eq.kind = .equal ∧ ¬ EndsInTarget us

/-- What is to be remembered of the tokens before the next one: that a target
can begin, that they end in a target, or neither. -/
inductive Mark where
  | fresh | name | other
deriving DecidableEq, Repr

def Mark.next (m : Mark) (k : Kind) : Mark :=
  if k = .leftParen ∨ k = .equal then .fresh
  else if k = .identifier ∧ m = .fresh then .name
  else .other

def Mark.after (m : Mark) (ts : List Token) : Mark :=
  ts.foldl (fun m t => m.next t.kind) m

theorem Mark.after_concat (m : Mark) (ts : List Token) (t : Token) :
    m.after (ts ++ [t]) = (m.after ts).next t.kind :=
  List.foldl_append

/-- Every equals sign stands behind a target. -/
def Targeted : Mark → List Token → Prop
  | _, [] => True
  | m, t :: ts => (t.kind = .equal → m = .name) ∧ Targeted (m.next t.kind) ts

/-- What follows some tokens is judged with the mark they leave. -/
theorem targeted_append {m : Mark} {us vs : List Token} :
    Targeted m (us ++ vs) ↔ Targeted m us ∧ Targeted (m.after us) vs := by
  induction us generalizing m with
  | nil => exact ⟨fun h => ⟨trivial, h⟩, fun h => h.2⟩
  | cons t us ih =>
      rw [List.cons_append, Targeted, Targeted, ih, and_assoc]
      rfl

/-- A token other than an equals sign needs nothing before it. -/
theorem targeted_cons_of_ne {m : Mark} {t : Token} (h : t.kind ≠ .equal) {ts : List Token} :
    Targeted m (t :: ts) ↔ Targeted (m.next t.kind) ts :=
  ⟨fun ht => ht.2, fun ht => ⟨fun hk => absurd hk h, ht⟩⟩

-- ---------------------------------------------------- marks say the same

/-- A target can begin after an open parenthesis or an equals sign. -/
theorem Mark.next_eq_fresh_iff {m : Mark} {k : Kind} :
    m.next k = .fresh ↔ k = .leftParen ∨ k = .equal := by
  unfold next
  split
  · next h => exact ⟨fun _ => h, fun _ => rfl⟩
  · next h => split <;> exact ⟨fun heq => (by cases heq), fun h' => absurd h' h⟩

/-- A target is a name where one can begin. -/
theorem Mark.next_eq_name_iff {m : Mark} {k : Kind} :
    m.next k = .name ↔ k = .identifier ∧ m = .fresh := by
  unfold next
  split
  · next h =>
      refine ⟨fun heq => (by cases heq), fun h' => ?_⟩
      rw [h'.1] at h
      simp at h
  · split
    · next h => exact ⟨fun _ => h, fun _ => rfl⟩
    · next h => exact ⟨fun heq => (by cases heq), fun h' => absurd h' h⟩

/-- After tokens, a target can begin if there are none or the last one allows
it. -/
theorem Mark.after_eq_fresh_iff {ts : List Token} :
    Mark.fresh.after ts = .fresh ↔ ∀ t ∈ ts.getLast?, t.kind = .leftParen ∨ t.kind = .equal := by
  rcases List.eq_nil_or_concat ts with rfl | ⟨ts, t, rfl⟩
  · simp [after]
  · rw [List.concat_eq_append, after_concat, next_eq_fresh_iff]
    simp

/-- The mark of a target is left by tokens that end in one. -/
theorem Mark.after_eq_name_iff {ts : List Token} :
    Mark.fresh.after ts = .name ↔ EndsInTarget ts := by
  rcases List.eq_nil_or_concat ts with rfl | ⟨ts, t, rfl⟩
  · refine ⟨fun h => (by cases h), ?_⟩
    rintro ⟨before, x, h, -⟩
    simp at h
  · rw [List.concat_eq_append, after_concat, next_eq_name_iff, after_eq_fresh_iff]
    constructor
    · rintro ⟨hk, hlast⟩
      exact ⟨ts, t, rfl, hk, hlast⟩
    · rintro ⟨before, x, heq, hk, hlast⟩
      obtain ⟨rfl, hx⟩ := List.append_inj' heq rfl
      cases hx
      exact ⟨hk, hlast⟩

/-- Token by token, every equals sign finds the mark of a target. -/
theorem targeted_iff_forall {m : Mark} {ts : List Token} :
    Targeted m ts ↔ ∀ us eq vs, ts = us ++ eq :: vs → eq.kind = .equal → m.after us = .name := by
  induction ts generalizing m with
  | nil => exact ⟨fun _ us eq vs h => by simp at h, fun _ => trivial⟩
  | cons t ts ih =>
      rw [Targeted, ih]
      constructor
      · rintro ⟨hfirst, hrest⟩ us eq vs heq hk
        cases us with
        | nil =>
            cases heq
            exact hfirst hk
        | cons u us =>
            cases heq
            exact hrest us eq vs rfl hk
      · intro h
        exact ⟨fun hk => h [] t ts rfl hk,
          fun us eq vs heq hk => h (t :: us) eq vs (by rw [heq]; rfl) hk⟩

/-- Some equals sign is misplaced exactly if not all are behind targets. -/
theorem misplaced_iff {ts : List Token} : Misplaced ts ↔ ¬ Targeted .fresh ts := by
  rw [targeted_iff_forall]
  constructor
  · rintro ⟨us, eq, vs, heq, hk, htarget⟩ h
    exact htarget (Mark.after_eq_name_iff.1 (h us eq vs heq hk))
  · intro h
    simp only [Classical.not_forall, Mark.after_eq_name_iff] at h
    obtain ⟨us, eq, vs, heq, hk, htarget⟩ := h
    exact ⟨us, eq, vs, heq, hk, htarget⟩

-- ============================================================ the grammar

/-- No operator with two operands is as loose as an assignment. -/
theorem levelOf_ne_assign (op : BinaryOp) : levelOf op ≠ .assign := by
  cases op <;> decide

/-- No operand of one is as loose as an assignment. -/
theorem tighter_ne_assign (l : Level) : l.tighter ≠ .assign := by
  cases l <;> decide

/-- An operator with two operands is not written with an equals sign alone. -/
theorem ne_equal_of_ofKind? {k : Kind} {op : BinaryOp}
    (h : Operator.ofKind? k = some (.binary op)) : k ≠ .equal := by
  rintro rfl
  cases h

/-- Only an equals sign is an assignment. -/
theorem ofKind?_eq_assign_iff {k : Kind} : Operator.ofKind? k = some .assign ↔ k = .equal := by
  cases k <;> simp [Operator.ofKind?]

/-- An equals sign is not an operand. -/
theorem ne_equal_of_operand {t : Token} {node : Node} (h : Yard.operand t = .ok node) :
    t.kind ≠ .equal := by
  intro hk
  have hstep := step_operand_of_operand h 0
  rw [hk] at hstep
  cases hstep

theorem ne_equal_of_opener? {k : Kind} {op : UnaryOp} (h : Yard.opener? k = some op) :
    k ≠ .equal := by
  rintro rfl
  cases h

/-- A sign leaves nothing that could be a target. -/
theorem Mark.next_of_ofKind? {m : Mark} {k : Kind} {op : UnaryOp}
    (h : UnaryOp.ofKind? k = some op) : m.next k = .other := by
  cases k <;> cases h <;> simp [next]

/-- No target ends in an operator, and none can begin after one. -/
theorem Mark.next_of_binary {m : Mark} {k : Kind} {op : BinaryOp}
    (h : Operator.ofKind? k = some (.binary op)) : m.next k = .other := by
  cases k <;> cases h <;> simp [next]

/-- Short of the loosest level, an expression that ends in a target is one
name. -/
theorem Drafts.name_of_after {l : Level} {ts : List Token} {d : Draft} (h : Drafts l ts d)
    (hl : l ≠ .assign) {m : Mark} (hm : m.after ts = .name) : m = .fresh ∧ ∃ x, d.name? = some x := by
  induction h generalizing m with
  | @operand t node ht =>
      obtain ⟨hk, rfl⟩ := Mark.next_eq_name_iff.1 hm
      rcases operand_cases ht with ⟨v, hv, -⟩ | ⟨-, rfl⟩
      · simp [Grammar.literal?, hk] at hv
      · exact ⟨rfl, _, rfl⟩
  | @group left right ts d _ hright _ _ =>
      rw [Mark.after, List.foldl_cons, List.foldl_append] at hm
      have hk := (Mark.next_eq_name_iff.1 hm).1
      rw [hright] at hk
      cases hk
  | @unary op t ts d hop _ ih =>
      rw [Mark.after, List.foldl_cons, Mark.next_of_ofKind? hop] at hm
      cases (ih (by decide) hm).1
  | @binary op t us vs left right hop _ _ _ ihr =>
      rw [Mark.after, List.foldl_append, List.foldl_cons, Mark.next_of_binary hop] at hm
      cases (ihr (tighter_ne_assign _) hm).1
  | assign => exact absurd rfl hl
  | tighter _ ih => exact ih (tighter_ne_assign _) hm

/-- A draft that is a name leaves the mark of a target. -/
theorem Drafts.after_of_name {l : Level} {ts : List Token} {d : Draft} (h : Drafts l ts d)
    {x : String} (hx : d.name? = some x) : Mark.fresh.after ts = .name := by
  obtain rfl : d = .operand (.variable x) := by
    unfold Draft.name? at hx
    split at hx <;> simp_all
  obtain ⟨t, rfl, ht⟩ := h.operand_inv
  rcases operand_cases ht with ⟨v, -, hv⟩ | ⟨hk, -⟩
  · cases hv
  · exact Mark.next_eq_name_iff.2 ⟨hk, rfl⟩

/-- A draft has a tree exactly if its equals signs stand behind targets. What
comes before it matters at the loosest level only. -/
theorem Drafts.targeted_iff {l : Level} {ts : List Token} {d : Draft} (h : Drafts l ts d)
    {m : Mark} (hm : l = .assign → m = .fresh) : Targeted m ts ↔ d.node?.isSome := by
  induction h generalizing m with
  | operand ht =>
      rw [targeted_cons_of_ne (ne_equal_of_operand ht)]
      exact ⟨fun _ => rfl, fun _ => trivial⟩
  | @group left right ts d hleft hright _ ih =>
      have hnext : m.next left.kind = .fresh := Mark.next_eq_fresh_iff.2 (.inl hleft)
      rw [targeted_cons_of_ne (by rw [hleft]; decide), hnext, targeted_append, ih fun _ => rfl,
        targeted_cons_of_ne (by rw [hright]; decide), Draft.node?, Option.isSome_map]
      exact ⟨fun h => h.1, fun h => ⟨h, trivial⟩⟩
  | @unary op t ts d hop _ ih =>
      rw [targeted_cons_of_ne (ne_equal_of_opener? (opener?_of_ofKind? hop)),
        ih fun hl => (by cases hl), Draft.node?, Option.isSome_map]
  | @binary op t us vs left right hop _ _ ihl ihr =>
      rw [targeted_append, targeted_cons_of_ne (ne_equal_of_ofKind? hop),
        ihl fun hl => absurd hl (levelOf_ne_assign op),
        ihr fun hl => absurd hl (tighter_ne_assign _), Draft.node?]
      cases left.node? <;> cases right.node? <;> simp
  | @assign t us vs target value hop htarget _ ihl ihr =>
      have hk := ofKind?_eq_assign_iff.1 hop
      obtain rfl := hm rfl
      have hname : Mark.fresh.after us = .name ↔ target.name?.isSome := by
        rw [Option.isSome_iff_exists]
        constructor
        · exact fun h => (htarget.name_of_after (by decide) h).2
        · rintro ⟨x, hx⟩
          exact htarget.after_of_name hx
      -- a name has a tree, so the left side asks for no more than being one
      have htree : target.name?.isSome → target.node?.isSome := by
        unfold Draft.name?
        split <;> simp [Draft.node?]
      have hnext : (Mark.fresh.after us).next t.kind = .fresh :=
        Mark.next_eq_fresh_iff.2 (.inr hk)
      rw [targeted_append, ihl fun hl => (by cases hl), Targeted, hnext, ihr fun _ => rfl, hname,
        Draft.node?]
      cases hx : target.name? <;> cases hv : value.node? <;> simp_all
  | tighter _ ih => exact ih fun hl => absurd hl (tighter_ne_assign _)

-- ================================================ outside of parentheses

namespace Place

/-- An equals sign is met where no more than `n` parentheses are open. -/
def assigns (n : Nat) : Place → List Token → Prop
  | _, [] => False
  | p, t :: ts =>
      (t.kind = .equal ∧ p.depth ≤ n) ∨ ∃ p', p.step t.kind = some p' ∧ p'.assigns n ts

/-- An equals sign is in one part of the tokens or in the other. -/
theorem assigns_append {n : Nat} {p : Place} {us vs : List Token} :
    p.assigns n (us ++ vs) ↔ p.assigns n us ∨ ∃ p', p.after us = some p' ∧ p'.assigns n vs := by
  induction us generalizing p with
  | nil => simp [assigns, after]
  | cons t us ih =>
      rw [List.cons_append, assigns, assigns, after]
      cases p.step t.kind with
      | none => simp
      | some p' => simp [ih, or_assoc]

/-- The depth of an equals sign is that of the tokens before it. -/
theorem assigns_iff_exists {n : Nat} {p : Place} {ts : List Token} :
    p.assigns n ts ↔ ∃ us eq vs p', ts = us ++ eq :: vs ∧ eq.kind = .equal
      ∧ p.after us = some p' ∧ p'.depth ≤ n := by
  induction ts generalizing p with
  | nil => simp [assigns]
  | cons t ts ih =>
      rw [assigns]
      constructor
      · rintro (⟨hk, hdepth⟩ | ⟨p', hstep, hrest⟩)
        · exact ⟨[], t, ts, p, rfl, hk, rfl, hdepth⟩
        · obtain ⟨us, eq, vs, p'', rfl, hk, hafter, hdepth⟩ := ih.1 hrest
          exact ⟨t :: us, eq, vs, p'', rfl, hk, by rw [after, hstep]; exact hafter, hdepth⟩
      · rintro ⟨us, eq, vs, p', heq, hk, hafter, hdepth⟩
        cases us with
        | nil =>
            cases heq
            cases hafter
            exact .inl ⟨hk, hdepth⟩
        | cons u us =>
            cases heq
            obtain ⟨q, hstep, hafter⟩ := Option.bind_eq_some_iff.1 hafter
            exact .inr ⟨q, hstep, ih.2 ⟨us, eq, vs, p', rfl, hk, hafter, hdepth⟩⟩

end Place

/-- Some equals sign stands outside of all parentheses. -/
def AssignsOutside (ts : List Token) : Prop :=
  ∃ us eq vs p, ts = us ++ eq :: vs ∧ eq.kind = .equal ∧ Place.after {} us = some p ∧ p.depth = 0

/-- An equals sign outside all parentheses is one at depth zero. -/
theorem assignsOutside_iff {ts : List Token} :
    AssignsOutside ts ↔ Place.assigns 0 {} ts := by
  simp only [AssignsOutside, Place.assigns_iff_exists, Nat.le_zero]

/-- The automaton takes a draft for an operand. -/
theorem Drafts.after_eq {l : Level} {ts : List Token} {d : Draft} (h : Drafts l ts d) (n : Nat) :
    Place.after ⟨.operand, n⟩ ts = some ⟨.operator, n⟩ := by
  induction h generalizing n with
  | operand ht =>
      rw [Place.after, step_operand_of_operand ht]
      rfl
  | @group left right ts d hleft hright _ ih =>
      have hopen : Place.step ⟨.operand, n⟩ left.kind = some ⟨.operand, n + 1⟩ := by
        rw [hleft]
        rfl
      have hclose : Place.step ⟨.operator, n + 1⟩ right.kind = some ⟨.operator, n⟩ := by
        simp [Place.step, hright, Kind.isJoint]
      rw [Place.after, hopen, Option.bind_some, Place.after_append, ih, Option.bind_some,
        Place.after, hclose]
      rfl
  | @unary op t ts d hop _ ih =>
      have hstep := step_operand_of_opener? (opener?_of_ofKind? hop) n
      rw [if_neg (by rintro rfl; generalize t.kind = k at hop; cases k <;> cases hop)] at hstep
      rw [Place.after, hstep, Option.bind_some, ih]
  | binary hop _ _ ihl ihr | assign hop _ _ ihl ihr =>
      rw [Place.after_append, ihl, Option.bind_some, Place.after, step_operator_of_ofKind? hop,
        Option.bind_some, ihr]
  | tighter _ ih => exact ih n

/-- Short of the loosest level, a draft has equals signs within parentheses
only. -/
theorem Drafts.not_assigns {l : Level} {ts : List Token} {d : Draft} (h : Drafts l ts d)
    {k n : Nat} (hkn : k ≤ n) (hl : l = .assign → k < n) :
    ¬ Place.assigns k ⟨.operand, n⟩ ts := by
  induction h generalizing n with
  | operand ht =>
      simp [Place.assigns, ne_equal_of_operand ht]
  | @group left right ts d hleft hright _ ih =>
      -- inside the parentheses the depth is one more
      have hopen : Place.step ⟨.operand, n⟩ left.kind = some ⟨.operand, n + 1⟩ := by
        rw [hleft]
        rfl
      have hinner := @ih (n + 1) (by omega) (fun _ => by omega)
      have hleft' : left.kind ≠ .equal := by
        rw [hleft]
        decide
      simp [Place.assigns, hopen, Place.assigns_append, hleft', hright, hinner]
  | @unary op t ts d hop hd ih =>
      have hstep := step_operand_of_opener? (opener?_of_ofKind? hop) n
      rw [if_neg (by rintro rfl; generalize t.kind = k at hop; cases k <;> cases hop)] at hstep
      have hne := ne_equal_of_opener? (opener?_of_ofKind? hop)
      simp [Place.assigns, hstep, hne, ih hkn fun hl => (by cases hl)]
  | @binary op t us vs left right hop hleft _ ihl ihr =>
      have hne := ne_equal_of_ofKind? hop
      have hl := ihl hkn fun hl => absurd hl (levelOf_ne_assign op)
      have hr := ihr hkn fun hl => absurd hl (tighter_ne_assign _)
      simp [Place.assigns_append, Place.assigns, hleft.after_eq, step_operator_of_ofKind? hop, hne,
        hl, hr]
  | @assign t us vs target value hop htarget _ ihl ihr =>
      have hlt := hl rfl
      have hl' := ihl hkn fun hl => (by cases hl)
      have hr := ihr hkn fun _ => hlt
      simp [Place.assigns_append, Place.assigns, htarget.after_eq, step_operator_of_ofKind? hop,
        hl', hr, hlt]
  | tighter _ ih => exact ih hkn fun hl => absurd hl (tighter_ne_assign _)

-- =============================================================== the yard

/-- Where an operand is expected, the automaton counts the open parentheses
of the yard. -/
theorem Pending.after_eq {ts : List Token} {operators : List Operator} {output : List Item}
    (h : Pending ts operators output) :
    Place.after {} ts = some ⟨.operand, openGroups operators⟩ := by
  induction h with
  | start => rfl
  | @opener ts operators output t op _ hop ih =>
      rw [Place.after_append, ih, Option.bind_some, Place.after, step_operand_of_opener? hop]
      by_cases hgroup : op = .group
      · rw [if_pos hgroup, hgroup, openGroups_cons_group]
        rfl
      · rw [if_neg hgroup, openGroups_cons_of_ne (by simpa using hgroup)]
        rfl
  | @operator ts us operators output t op d _ hd hop _ ih =>
      have hne : op ≠ .unary .group := by
        rintro rfl
        exact ofKind?_ne_unary hop
      rw [Place.after_append, Place.after_append, ih, Option.bind_some, hd.after_eq,
        Option.bind_some, Place.after, step_operator_of_ofKind? hop, openGroups_cons_of_ne hne]
      rfl

/-- No left operand is as loose as an assignment. -/
theorem leftLevel_ne_assign (op : Operator) : leftLevel op ≠ .assign := by
  cases op with
  | binary op => exact levelOf_ne_assign op
  | unary | assign => exact fun h => (by cases h)

/-- With no parenthesis open, the assignments that wait are the equals signs
outside of parentheses. -/
theorem Pending.assigns_iff {ts : List Token} {operators : List Operator} {output : List Item}
    (h : Pending ts operators output) (hopen : openGroups operators = 0) :
    Place.assigns 0 {} ts ↔ .assign ∈ operators := by
  induction h with
  | start => simp [Place.assigns]
  | @opener ts operators output t op hp hop ih =>
      have hne := ne_equal_of_opener? hop
      simp [Place.assigns_append, Place.assigns, hne, ih (openGroups_of_cons hopen).2]
  | @operator ts us operators output t op d hp hd hop _ ih =>
      replace hopen := (openGroups_of_cons hopen).2
      have hbefore := hp.after_eq
      rw [hopen] at hbefore
      have hinner := hd.not_assigns (Nat.le_refl 0) fun hl => absurd hl (leftLevel_ne_assign op)
      have hequal : t.kind = .equal ↔ op = .assign := by
        rw [← ofKind?_eq_assign_iff, hop, Option.some_inj]
      simp [Place.assigns_append, Place.assigns, hbefore, hd.after_eq, hinner, hequal, ih hopen,
        or_comm, eq_comm]

end Lox

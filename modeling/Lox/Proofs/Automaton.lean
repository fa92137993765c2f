/-
An automaton for the tokens of an expression.

Which token an expression parser stops at does not depend on precedences. It
is decided by two things, whether an operand or an operator comes next and
how many parentheses are open: a `Place`. The automaton moves from place to
place and has tables of its own.

A yard is at a place if it expects what the place says and as many open
parentheses wait in it (`Yard.IsAt`). Pushing an operator never moves a
parenthesis out, and closing a group takes exactly one away, so one token
takes a yard along with the automaton, or both refuse it (`IsAt.feed`). The
same of all tokens up to the first refusal is then an induction over them.
-/
import Lox.Proofs.Expression

namespace Lox

-- ============================================================== the places

/-- What comes next in an expression. -/
inductive Position where
  | operand | operator
deriving DecidableEq, Repr

/-- What comes next, and how many parentheses are open. -/
structure Place where
  position : Position := .operand
  depth : Nat := 0
deriving DecidableEq, Repr

/-- The signs that stand before their operand. -/
def Kind.isSign : Kind → Bool
  | .plus | .minus | .bang => true
  | _ => false

/-- The tokens that are an operand: literals and names. -/
def Kind.isOperand : Kind → Bool
  | .number | .string | .trueKw | .falseKw | .nilKw | .identifier => true
  | _ => false

/-- The tokens that stand between two operands. -/
def Kind.isJoint : Kind → Bool
  | .plus | .minus | .star | .slash | .equalEqual | .bangEqual | .less | .lessEqual | .greater
  | .greaterEqual | .orKw | .andKw | .equal => true
  | _ => false

namespace Place

/-- The place after a token; none if the automaton is stuck on it. -/
def step (p : Place) (k : Kind) : Option Place :=
  match p.position with
  | .operand =>
      if k.isSign then some p
      else if k = .leftParen then some { p with depth := p.depth + 1 }
      else if k.isOperand then some { p with position := .operator }
      else none
  | .operator =>
      if k.isJoint then some { p with position := .operand }
      else if k = .rightParen ∧ 0 < p.depth then some { p with depth := p.depth - 1 }
      else none

/-- The place after some tokens; none if the automaton gets stuck. -/
def after (p : Place) : List Token → Option Place
  | [] => some p
  | t :: ts => (p.step t.kind).bind fun p' => p'.after ts

/-- The place behind two stretches of tokens, one stretch after the other. -/
theorem after_append (p : Place) (us vs : List Token) :
    p.after (us ++ vs) = (p.after us).bind fun p' => p'.after vs := by
  induction us generalizing p with
  | nil => rfl
  | cons t us ih =>
      simp only [List.cons_append, after]
      cases p.step t.kind with
      | none => rfl
      | some p' => exact ih p'

/-- The objection to a token on which the automaton is stuck. -/
def objection (p : Place) (t : Token) : SyntaxFault :=
  match p.position with
  | .operand => .operandExpected t.lexeme
  | .operator => if t.kind = .rightParen then .unmatchedParen else .operatorExpected t.lexeme

/-- The words of that objection. -/
def complaint (p : Place) (t : Token) : String :=
  match p.position with
  | .operand => "Unexpected token '" ++ t.lexeme ++ "' where an operand was expected"
  | .operator =>
      if t.kind = .rightParen then "Unmatched right parenthesis"
      else "Unexpected token '" ++ t.lexeme ++ "' where an operator was expected"

/-- The message of an objection is the complaint that the place has about the
token. -/
theorem message_objection (p : Place) (t : Token) : (p.objection t).message = p.complaint t := by
  unfold objection complaint
  cases p.position with
  | operand => rfl
  | operator =>
      dsimp only
      by_cases hk : t.kind = .rightParen
      · rw [if_pos hk, if_pos hk]
        rfl
      · rw [if_neg hk, if_neg hk]
        rfl

end Place

/-- The automaton runs over some tokens from the start of an expression and
is stuck on `t`, at the place `p`. -/
def StuckAt (ts : List Token) (p : Place) (t : Token) : Prop :=
  ∃ us vs, ts = us ++ t :: vs ∧ Place.after {} us = some p ∧ p.step t.kind = none

/-- A place that some tokens lead nowhere from has a first token that does. -/
theorem Place.after_eq_none {p : Place} {ts : List Token} (h : p.after ts = none) :
    ∃ us t vs p', ts = us ++ t :: vs ∧ p.after us = some p' ∧ p'.step t.kind = none := by
  induction ts generalizing p with
  | nil => cases h
  | cons t ts ih =>
      rw [after] at h
      cases hstep : p.step t.kind with
      | none => exact ⟨[], t, ts, p, rfl, rfl, hstep⟩
      | some p' =>
          rw [hstep] at h
          obtain ⟨us, u, vs, p'', rfl, hafter, hstuck⟩ := ih h
          exact ⟨t :: us, u, vs, p'', rfl, by rw [after, hstep]; exact hafter, hstuck⟩

-- =============================================================== the yard

/-- Open parentheses among waiting operators. -/
def openGroups (operators : List Operator) : Nat :=
  operators.count (.unary .group)

/-- Only a parenthesis counts as one. -/
theorem openGroups_cons_of_ne {w : Operator} (h : w ≠ .unary .group) (below : List Operator) :
    openGroups (w :: below) = openGroups below :=
  List.count_cons_of_ne h

theorem openGroups_cons_group (below : List Operator) :
    openGroups (.unary .group :: below) = openGroups below + 1 :=
  List.count_cons_self

/-- Waiting operators are free of open parentheses if none is counted. -/
theorem openGroups_eq_zero_iff {operators : List Operator} :
    openGroups operators = 0 ↔ .unary .group ∉ operators :=
  List.count_eq_zero

/-- With no parenthesis open, the top is none and below there is none. -/
theorem openGroups_of_cons {w : Operator} {below : List Operator}
    (h : openGroups (w :: below) = 0) : w ≠ .unary .group ∧ openGroups below = 0 := by
  rw [openGroups_eq_zero_iff, List.mem_cons, not_or] at h
  exact ⟨Ne.symm h.1, openGroups_eq_zero_iff.2 h.2⟩

/-- An operator that comes in closes no parenthesis. -/
theorem openGroups_push {k : Kind} {op : Operator} (hop : Operator.ofKind? k = some op)
    (operators : List Operator) (output : List Item) :
    openGroups (Yard.push op operators output).1 = openGroups operators := by
  have hne : op ≠ .unary .group := by
    rintro rfl
    exact ofKind?_ne_unary hop
  fun_induction Yard.push op operators output with
  | case1 output => exact openGroups_cons_of_ne hne []
  | case2 w below output hw ih =>
      have hw' : w ≠ .unary .group := by
        rintro rfl
        rw [reducesBefore_group hop] at hw
        cases hw
      rw [ih, openGroups_cons_of_ne hw']
  | case3 w below output hw => exact openGroups_cons_of_ne hne _

/-- Closing a group takes one open parenthesis away, and fails if there is
none. -/
theorem openGroups_closeGroup (operators : List Operator) (output : List Item) :
    match Yard.closeGroup operators output with
    | some (operators', _) => openGroups operators = openGroups operators' + 1
    | none => openGroups operators = 0 := by
  fun_induction Yard.closeGroup operators output with
  | case1 output => rfl
  | case2 below output => exact openGroups_cons_group below
  | case3 w below output hw ih =>
      rw [openGroups_cons_of_ne hw]
      exact ih

namespace Yard

/-- The yard expects what the place says, and as many parentheses are open in
it. -/
structure IsAt (y : Yard) (p : Place) : Prop where
  position : y.expectOperand = true ↔ p.position = .operand
  depth : openGroups y.operators = p.depth

/-- A yard that is fresh is at the first place. -/
theorem isAt_restart (y : Yard) : y.restart.IsAt {} :=
  ⟨by simp [restart], rfl⟩

end Yard

-- ---------------------------------------------------------- the two tables

/-- A prefix operator is still in front of an operand; a parenthesis opens a
group. -/
theorem step_operand_of_opener? {k : Kind} {op : UnaryOp} (h : Yard.opener? k = some op)
    (n : Nat) :
    Place.step ⟨.operand, n⟩ k = some ⟨.operand, if op = .group then n + 1 else n⟩ := by
  cases k <;> cases h <;> rfl

/-- Behind an operand comes an operator. -/
theorem step_operand_of_operand {t : Token} {node : Node} (h : Yard.operand t = .ok node)
    (n : Nat) : Place.step ⟨.operand, n⟩ t.kind = some ⟨.operator, n⟩ := by
  unfold Yard.operand at h
  split at h
  case h_7 => cases h
  all_goals
    next hk =>
      rw [hk]
      rfl

/-- A token that is no opener is an operand, or the automaton is stuck on
it. -/
theorem operand_eq_error_of_step {t : Token} (hopener : Yard.opener? t.kind = none)
    (hnum : t.kind = .number → IsNumeral t.lexeme) {failure : ParseFailure}
    (h : Yard.operand t = .error failure) (n : Nat) :
    failure = .rejected (.operandExpected t.lexeme) (some t)
      ∧ Place.step ⟨.operand, n⟩ t.kind = none := by
  unfold Yard.operand at h
  split at h
  case h_1 hk =>
    obtain ⟨x, hx⟩ := Double.ofText?_of_isNumeral (hnum hk)
    simp only [hx] at h
    cases h
  case h_7 hnumber hstring htrue hfalse hnil hident =>
    cases h
    refine ⟨rfl, ?_⟩
    generalize t.kind = k at hopener hnumber hstring htrue hfalse hnil hident
    cases k <;> first | rfl | contradiction
  all_goals cases h

/-- Behind an operator comes an operand. -/
theorem step_operator_of_ofKind? {k : Kind} {op : Operator} (h : Operator.ofKind? k = some op)
    (n : Nat) : Place.step ⟨.operator, n⟩ k = some ⟨.operand, n⟩ := by
  cases k <;> cases h <;> rfl

/-- Where an operator is expected, nothing else leads on but a right
parenthesis. -/
theorem step_operator_of_ofKind?_none {k : Kind} (h : Operator.ofKind? k = none)
    (hne : k ≠ .rightParen) (n : Nat) : Place.step ⟨.operator, n⟩ k = none := by
  cases k <;> first | exact absurd rfl hne | rfl | cases h

-- ------------------------------------------------------ one token, and all

namespace Yard

/-- One token takes a yard along with the automaton, or both refuse it. -/
theorem IsAt.feed {y : Yard} {p : Place} {t : Token} (h : y.IsAt p)
    (hnum : t.kind = .number → IsNumeral t.lexeme) :
    match p.step t.kind with
    | some p' => ∃ y', y.feed t = .ok y' ∧ y'.IsAt p'
    | none => y.feed t = .error (.rejected (p.objection t) (some t)) := by
  obtain ⟨operators, output, expect⟩ := y
  obtain ⟨position, depth⟩ := p
  obtain ⟨hposition, hdepth⟩ := h
  dsimp only at hposition hdepth
  cases position with
  | operand =>
      obtain rfl : expect = true := hposition.2 rfl
      cases hopener : opener? t.kind with
      | some op =>
          rw [step_operand_of_opener? hopener]
          refine ⟨_, feed_opener hopener, by simp, ?_⟩
          dsimp only
          by_cases hop : op = .group
          · rw [if_pos hop, hop, openGroups_cons_group, hdepth]
          · rw [if_neg hop, openGroups_cons_of_ne (by simpa using hop), hdepth]
      | none =>
          cases hoperand : operand t with
          | ok node =>
              rw [step_operand_of_operand hoperand]
              exact ⟨_, feed_operand hoperand, by simp, hdepth⟩
          | error failure =>
              obtain ⟨rfl, hstep⟩ := operand_eq_error_of_step hopener hnum hoperand depth
              rw [hstep]
              simp [Yard.feed, feedOperand, hopener, hoperand, Place.objection]
  | operator =>
      obtain rfl : expect = false := by
        cases expect with
        | false => rfl
        | true => cases hposition.1 rfl
      by_cases hk : t.kind = .rightParen
      -- a group can be closed exactly if the automaton counts an open one
      · have hclose := openGroups_closeGroup operators output
        cases hgroup : closeGroup operators output with
        | none =>
            rw [hgroup] at hclose
            have hstep : Place.step ⟨.operator, depth⟩ t.kind = none := by
              simp [Place.step, hk, Kind.isJoint]
              omega
            rw [hstep]
            simp [Yard.feed, feedOperator, hk, hgroup, Place.objection]
        | some closed =>
            obtain ⟨operators', output'⟩ := closed
            rw [hgroup] at hclose
            dsimp only at hclose
            have hstep : Place.step ⟨.operator, depth⟩ t.kind = some ⟨.operator, depth - 1⟩ := by
              simp [Place.step, hk, Kind.isJoint]
              omega
            rw [hstep]
            refine ⟨_, feed_close hk hgroup, by simp, ?_⟩
            dsimp only
            omega
      · cases hop : Operator.ofKind? t.kind with
        | some op =>
            rw [step_operator_of_ofKind? hop]
            refine ⟨_, feed_operator hop, by simp, ?_⟩
            dsimp only
            rw [openGroups_push hop, hdepth]
        | none =>
            rw [step_operator_of_ofKind?_none hop hk]
            simp [Yard.feed, feedOperator, hk, hop, Place.objection]

/-- So do tokens on which the automaton is not stuck. -/
theorem IsAt.feedAll {y : Yard} {p p' : Place} {ts : List Token} (h : y.IsAt p)
    (hafter : p.after ts = some p')
    (hnum : ∀ t ∈ ts, t.kind = .number → IsNumeral t.lexeme) :
    ∃ y', y.feedAll ts = .ok y' ∧ y'.IsAt p' := by
  induction ts generalizing y p with
  | nil =>
      cases hafter
      exact ⟨y, rfl, h⟩
  | cons t ts ih =>
      rw [List.forall_mem_cons] at hnum
      have hfeed := h.feed hnum.1
      rw [Place.after] at hafter
      cases hstep : p.step t.kind with
      | none =>
          rw [hstep] at hafter
          cases hafter
      | some q =>
          rw [hstep] at hafter hfeed
          obtain ⟨z, hz, hat⟩ := hfeed
          obtain ⟨y', hy', hat'⟩ := ih hat hafter hnum.2
          exact ⟨y', by rw [Yard.feedAll, hz]; exact hy', hat'⟩

/-- A token on which the automaton is stuck is the one that is refused. -/
theorem feedAll_of_stuckAt (y : Yard) {ts : List Token} {p : Place} {t : Token}
    (h : StuckAt ts p t) (hnum : ∀ t ∈ ts, t.kind = .number → IsNumeral t.lexeme) :
    y.restart.feedAll ts = .error (.rejected (p.objection t) (some t)) := by
  obtain ⟨us, vs, rfl, hafter, hstuck⟩ := h
  rw [List.forall_mem_append, List.forall_mem_cons] at hnum
  obtain ⟨y', hus, hat⟩ := y.isAt_restart.feedAll hafter hnum.1
  have hfeed := hat.feed hnum.2.1
  rw [hstuck] at hfeed
  rw [feedAll_append, hus]
  show y'.feedAll (t :: vs) = _
  rw [Yard.feedAll, hfeed]

end Yard

end Lox

/-
The shape of a yard between two tokens.

Three things are true of a yard whatever tokens it has taken
(`Yard.InShape`).

- The waiting operators are layered. Between two open parentheses an
  operator never binds looser than the one below it, and only signs and
  assignments may stand on their equals.
- As many open parentheses wait as were read and not closed. Which ones are
  closed is said of the tokens alone, read from the end (`unclosed`).
- The output is a row of complete postfix expressions: one for each waiting
  operator with two sides, which is its left operand, and one more after an
  operand. It can be cut up in no other way.

The first and the last are what the tokens' account of the yard
(`Yard.Reads`) says of the state alone, so they are inductions over
`Pending`. The parentheses are counted token by token. Parsing an
expression passes through yards in shape only
(`yard_in_shape_after_tokens`).
-/
import Mathlib.Data.List.Chain
import Mathlib.Data.List.Induction
import Lox.Proofs.Automaton

namespace Lox

open Grammar (Level)

-- ============================================================ the layers

/-- The signs, which stand before their operand. -/
def Operator.isSign : Operator → Bool
  | .unary op => op ≠ .group
  | _ => false

/-- An operator may wait right on top of another one: it does not bind
looser, and it binds just as tight only if both are signs or both are
assignments. -/
structure Operator.RestsOn (upper lower : Operator) : Prop where
  le : upper.precedence ≤ lower.precedence
  of_eq : upper.precedence = lower.precedence →
    (upper.isSign = true ∧ lower.isSign = true) ∨ (upper = .assign ∧ lower = .assign)

/-- The signs are the operators of the tightest precedence. -/
theorem Operator.isSign_iff {w : Operator} :
    w.isSign = true ↔ w.precedence = Level.prefixed.bound := by
  cases w with
  | unary op => cases op <;> decide
  | binary op => cases op <;> decide
  | assign => decide

/-- A sign rests on every operator. -/
theorem Operator.restsOn_of_isSign {w : Operator} (hw : w.isSign = true) (lower : Operator) :
    w.RestsOn lower := by
  have hprec := isSign_iff.1 hw
  constructor
  · rw [hprec]
    exact (holds_cons.1 (holds_prefixed [lower])).1
  · intro heq
    exact .inl ⟨hw, isSign_iff.2 (heq.symm.trans hprec)⟩

/-- An operator with two sides comes to rest on what is not applied before
it. -/
theorem Operator.restsOn_of_holds {k : Kind} {op w : Operator} {below : List Operator}
    (hop : Operator.ofKind? k = some op) (hholds : Holds (w :: below) op.precedence) :
    op.RestsOn w := by
  obtain ⟨hle, hlt⟩ := holds_cons.1 hholds
  refine ⟨hle, fun heq => ?_⟩
  cases w with
  | binary op' =>
      have := hlt rfl
      omega
  | unary op' =>
      -- no token between two operands has the precedence of a unary operator
      cases k <;> cases hop <;> cases op' <;> exact absurd heq (by decide)
  | assign =>
      cases k <;> cases hop <;> first | exact .inr ⟨rfl, rfl⟩ | exact absurd heq (by decide)

/-- Each waiting operator rests on the one below it; an open parenthesis
rests on anything. -/
theorem Pending.layered {ts : List Token} {operators : List Operator} {output : List Item}
    (h : Pending ts operators output) :
    operators.IsChain fun upper lower => upper = .unary .group ∨ upper.RestsOn lower := by
  induction h with
  | start => exact .nil
  | @opener _ _ _ _ op _ _ ih =>
      refine List.isChain_cons.2 ⟨fun w _ => ?_, ih⟩
      by_cases hop : op = .group
      · exact .inl (by rw [hop])
      · exact .inr (Operator.restsOn_of_isSign (by simpa [Operator.isSign] using hop) w)
  | @operator _ _ operators _ _ op _ _ _ hop hholds ih =>
      refine List.isChain_cons.2 ⟨fun w hw => .inr ?_, ih⟩
      cases operators with
      | nil => cases hw
      | cons v below =>
          cases hw
          exact Operator.restsOn_of_holds hop hholds

/-- The layers are the same whether an operand or an operator comes next. -/
theorem Ended.layered {l : Level} {ts : List Token} {operators : List Operator}
    {output : List Item} (h : Ended l ts operators output) :
    operators.IsChain fun upper lower => upper = .unary .group ∨ upper.RestsOn lower := by
  obtain ⟨hp, -, -⟩ := h
  exact hp.layered

/-- The first segment begins where the list does. -/
theorem exists_first_segment (g : Operator) (operators : List Operator) :
    ∃ first rest, operators.splitOn g = first :: rest ∧ ∀ w ∈ first.head?, w ∈ operators.head? := by
  cases operators with
  | nil => exact ⟨[], [], List.splitOn_nil g, fun w hw => hw⟩
  | cons v below =>
      rw [List.splitOn_cons_eq_if_modifyHead]
      split
      · exact ⟨[], _, rfl, fun w hw => by cases hw⟩
      · obtain ⟨first, rest, heq⟩ := List.exists_cons_of_ne_nil (List.splitOn_ne_nil g below)
        rw [heq]
        exact ⟨v :: first, rest, rfl, fun w hw => hw⟩

/-- Between two delimiters a chain needs no exception for them. -/
theorem isChain_segment {R : Operator → Operator → Prop} {g : Operator} {operators : List Operator}
    (h : operators.IsChain fun upper lower => upper = g ∨ R upper lower) :
    ∀ segment ∈ operators.splitOn g, segment.IsChain R := by
  induction operators with
  | nil => simp
  | cons w below ih =>
      obtain ⟨htop, hbelow⟩ := List.isChain_cons.1 h
      rw [List.splitOn_cons_eq_if_modifyHead]
      by_cases hw : w = g
      · rw [if_pos (by simpa using hw), List.forall_mem_cons]
        exact ⟨.nil, ih hbelow⟩
      · obtain ⟨first, rest, heq, hhead⟩ := exists_first_segment g below
        have hsegments := ih hbelow
        rw [heq, List.forall_mem_cons] at hsegments
        rw [if_neg (by simpa using hw), heq, List.modifyHead_cons, List.forall_mem_cons]
        refine ⟨List.isChain_cons.2 ⟨fun v hv => ?_, hsegments.1⟩, hsegments.2⟩
        exact (htop v (hhead v hv)).resolve_left hw

-- ======================================================= the parentheses

/-- The closing parentheses among some tokens that no opening one among them
is left for. -/
def strayClosers : List Token → Nat
  | [] => 0
  | t :: ts =>
      if t.kind = .leftParen then strayClosers ts - 1
      else if t.kind = .rightParen then strayClosers ts + 1
      else strayClosers ts

/-- The opening parentheses among some tokens that are not closed: all closing
ones behind them belong to opening ones behind them. -/
def unclosed : List Token → Nat
  | [] => 0
  | t :: ts =>
      if t.kind = .leftParen ∧ strayClosers ts = 0 then unclosed ts + 1
      else unclosed ts

/-- What the yard takes for an operand is of the kind of one. -/
theorem isOperand_of_operand {t : Token} {node : Node} (h : Yard.operand t = .ok node) :
    t.kind.isOperand = true := by
  have hstep := step_operand_of_operand h 0
  generalize t.kind = k at hstep
  cases k <;> first | rfl | cases hstep

namespace Yard

/-- One token opens a parenthesis, closes one, or leaves them alone. -/
theorem openGroups_feed {y y' : Yard} {t : Token} (h : y.feed t = .ok y') :
    openGroups y'.operators + (if t.kind = .rightParen then 1 else 0)
      = openGroups y.operators + (if t.kind = .leftParen then 1 else 0) := by
  rcases feed_cases h with ⟨op, hop, -, rfl⟩ | ⟨node, hnode, -, rfl⟩
    | ⟨hk, -, operators, output, hclose, rfl⟩ | ⟨op, hop, -, rfl⟩
  · have hright : t.kind ≠ .rightParen := fun hk => by rw [hk] at hop; cases hop
    rw [if_neg hright]
    rcases opener?_cases hop with ⟨hleft, rfl⟩ | ⟨hne, hsign⟩
    · rw [if_pos hleft, openGroups_cons_group]
    · have hleft : t.kind ≠ .leftParen := fun hk => by rw [hk] at hsign; cases hsign
      rw [if_neg hleft, openGroups_cons_of_ne (by simpa using hne)]
  · have hoperand := isOperand_of_operand hnode
    have hright : t.kind ≠ .rightParen := fun hk => by rw [hk] at hoperand; cases hoperand
    have hleft : t.kind ≠ .leftParen := fun hk => by rw [hk] at hoperand; cases hoperand
    rw [if_neg hright, if_neg hleft]
  · have hgroups := openGroups_closeGroup y.operators y.output
    rw [hclose] at hgroups
    rw [hk]
    exact hgroups.symm
  · have hright : t.kind ≠ .rightParen := fun hk => by rw [hk] at hop; cases hop
    have hleft : t.kind ≠ .leftParen := fun hk => by rw [hk] at hop; cases hop
    rw [if_neg hright, if_neg hleft, openGroups_push hop]

/-- Stray closing parentheses close what was open before the tokens, and the
unclosed ones are open behind them as well. -/
theorem openGroups_feedAll {y y' : Yard} {ts : List Token} (h : y.feedAll ts = .ok y') :
    strayClosers ts ≤ openGroups y.operators
      ∧ openGroups y'.operators + strayClosers ts = openGroups y.operators + unclosed ts := by
  induction ts generalizing y with
  | nil =>
      cases h
      exact ⟨Nat.zero_le _, rfl⟩
  | cons t ts ih =>
      rw [feedAll] at h
      split at h
      · next z hz =>
          have hone := openGroups_feed hz
          obtain ⟨hle, hall⟩ := ih h
          unfold strayClosers unclosed
          by_cases hleft : t.kind = .leftParen
          · simp only [hleft, if_true, true_and, reduceCtorEq, if_false] at hone ⊢
            split <;> omega
          · simp only [hleft, if_false, false_and] at hone ⊢
            by_cases hright : t.kind = .rightParen
            · simp only [hright, if_true] at hone ⊢
              omega
            · simp only [hright, if_false] at hone ⊢
              omega
      · cases h

/-- No token that a yard takes ends an expression. -/
theorem endsExpression_of_feed {y y' : Yard} {t : Token} (h : y.feed t = .ok y') :
    t.kind.endsExpression = false := by
  rcases feed_cases h with ⟨op, hop, -⟩ | ⟨node, hnode, -⟩ | ⟨hk, -⟩ | ⟨op, hop, -⟩
  · generalize t.kind = k at hop
    cases k <;> first | rfl | cases hop
  · have hoperand := isOperand_of_operand hnode
    generalize t.kind = k at hoperand
    cases k <;> first | rfl | cases hoperand
  · rw [hk]
    rfl
  · generalize t.kind = k at hop
    cases k <;> first | rfl | cases hop

/-- The yard has taken no token that ends an expression. -/
theorem endsExpression_of_feedAll {y y' : Yard} {ts : List Token} (h : y.feedAll ts = .ok y') :
    ∀ t ∈ ts, t.kind.endsExpression = false := by
  induction ts generalizing y with
  | nil => exact fun t ht => absurd ht List.not_mem_nil
  | cons t ts ih =>
      rw [feedAll] at h
      split at h
      · next z hz => exact List.forall_mem_cons.2 ⟨endsExpression_of_feed hz, ih h⟩
      · cases h

end Yard

-- ============================================================ the output

/-- How many operands an operator takes. -/
def Operator.arity : Operator → Nat
  | .unary _ => 1
  | .binary _ => 2
  | .assign => 2

namespace Postfix

/-- Complete postfix expressions, first item first: an operand, or as many
complete expressions as an operator takes and then the operator. -/
inductive Complete : List Item → Prop where
  | operand (node : Node) : Complete [.operand node]
  | apply {parts : List (List Item)} (op : Operator) :
      parts.length = op.arity → (∀ part ∈ parts, Complete part) →
      Complete (parts.flatten ++ [.operator (some op)])

theorem Complete.one {operand : List Item} (h : Complete operand) (op : Operator)
    (hop : op.arity = 1) : Complete (operand ++ [.operator (some op)]) := by
  have happly : Complete ([operand].flatten ++ [.operator (some op)]) :=
    .apply op hop.symm (by simpa using h)
  simpa using happly

theorem Complete.two {left right : List Item} (hleft : Complete left) (hright : Complete right)
    (op : Operator) (hop : op.arity = 2) :
    Complete (left ++ right ++ [.operator (some op)]) := by
  have happly : Complete ([left, right].flatten ++ [.operator (some op)]) :=
    .apply op hop.symm (by simpa using ⟨hleft, hright⟩)
  simpa using happly

/-- The items are a row of complete expressions. -/
structure Splits (items : List Item) (parts : List (List Item)) : Prop where
  complete : ∀ part ∈ parts, Complete part
  flatten_eq : parts.flatten = items

theorem splits_nil : Splits [] [] :=
  ⟨fun _ hpart => absurd hpart List.not_mem_nil, rfl⟩

/-- A complete expression may follow what is cut up. -/
theorem Splits.concat {items part : List Item} {parts : List (List Item)} (h : Splits items parts)
    (hpart : Complete part) : Splits (items ++ part) (parts ++ [part]) := by
  constructor
  · rw [List.forall_mem_append, List.forall_mem_singleton]
    exact ⟨h.complete, hpart⟩
  · rw [List.flatten_append, List.flatten_singleton, h.flatten_eq]

-- ----------------------------------------------------- one way to cut it

/-- Rows of equally many parts, each behind anything, agree only if their
parts do. Of the parts of one row this asks no more than the induction over
complete expressions gives. -/
theorem parts_eq {parts parts' : List (List Item)} {before before' : List Item}
    (hends : ∀ part ∈ parts, ∀ part' before before', Complete part' →
      before ++ part = before' ++ part' → part = part')
    (hcomplete : ∀ part ∈ parts', Complete part) (hlength : parts.length = parts'.length)
    (heq : before ++ parts.flatten = before' ++ parts'.flatten) : parts = parts' := by
  induction parts using List.reverseRecOn generalizing parts' with
  | nil => exact (List.length_eq_zero_iff.1 hlength.symm).symm
  | append_singleton parts part ih =>
      rcases List.eq_nil_or_concat parts' with rfl | ⟨parts', part', rfl⟩
      · simp at hlength
      · rw [List.concat_eq_append] at hlength hcomplete heq ⊢
        rw [List.forall_mem_append, List.forall_mem_singleton] at hends hcomplete
        simp only [List.flatten_append, List.flatten_singleton, ← List.append_assoc] at heq
        obtain rfl := hends.2 _ _ _ hcomplete.2 heq
        rw [ih hends.1 hcomplete.1 (by simpa using hlength) (List.append_cancel_right heq)]

/-- Items end in at most one complete expression: the last item tells how
many parts are before it. -/
theorem Complete.eq_of_append {part part' before before' : List Item} (h : Complete part)
    (h' : Complete part') (heq : before ++ part = before' ++ part') : part = part' := by
  induction h generalizing part' before before' with
  | operand node =>
      cases h' with
      | operand node' => exact (List.append_inj' heq rfl).2
      | apply op' _ _ =>
          rw [← List.append_assoc] at heq
          cases (List.append_inj' heq rfl).2
  | apply op hlength _ ih =>
      rw [← List.append_assoc] at heq
      cases h' with
      | operand node' => cases (List.append_inj' heq rfl).2
      | apply op' hlength' hcomplete' =>
          rw [← List.append_assoc] at heq
          obtain ⟨hparts, hop⟩ := List.append_inj' heq rfl
          cases hop
          rw [parts_eq (fun p hp q b b' hq h => ih p hp hq h) hcomplete'
            (hlength.trans hlength'.symm) hparts]

/-- A row of complete expressions weighs as many as there are. -/
theorem weight_flatten {parts : List (List Item)} (h : ∀ part ∈ parts, weight part = 1) :
    weight parts.flatten = parts.length := by
  induction parts with
  | nil => rfl
  | cons part parts ih =>
      rw [List.forall_mem_cons] at h
      rw [List.flatten_cons, weight_append, h.1, ih h.2, List.length_cons]
      omega

/-- A complete expression weighs one. -/
theorem Complete.weight_eq {part : List Item} (h : Complete part) : weight part = 1 := by
  induction h with
  | operand node => rfl
  | apply op hlength _ ih =>
      rw [weight_append, weight_flatten ih, hlength]
      cases op <;> rfl

/-- A row of complete expressions can be cut up in one way only. -/
theorem Splits.unique {items : List Item} {parts parts' : List (List Item)}
    (h : Splits items parts) (h' : Splits items parts') : parts = parts' := by
  have hlength : parts.length = parts'.length := by
    have hw := weight_flatten fun part hpart => (h.complete part hpart).weight_eq
    have hw' := weight_flatten fun part hpart => (h'.complete part hpart).weight_eq
    rw [h.flatten_eq] at hw
    rw [h'.flatten_eq] at hw'
    omega
  have heq : [] ++ parts.flatten = [] ++ parts'.flatten := by rw [h.flatten_eq, h'.flatten_eq]
  exact parts_eq (fun part hpart part' _ _ => (h.complete part hpart).eq_of_append) h'.complete
    hlength heq

end Postfix

-- ------------------------------------------------- what the yard puts out

open Postfix (Complete Splits)

/-- The postfix form of a draft is complete. -/
theorem Draft.complete_items (d : Draft) : Complete d.items.reverse := by
  induction d with
  | operand node => exact .operand node
  | unary op d ih => simpa [items] using ih.one (.unary op) rfl
  | binary op left right ihl ihr => simpa [items] using ihl.two ihr (.binary op) rfl
  | assign target value iht ihv => simpa [items] using iht.two ihv .assign rfl

/-- The waiting operators with two sides: the binary ones and
assignments. -/
def twoSided (operators : List Operator) : Nat :=
  operators.countP fun op => op.arity = 2

/-- Each operator with two sides waits with its left operand put out. -/
theorem Pending.exists_splits {ts : List Token} {operators : List Operator} {output : List Item}
    (h : Pending ts operators output) :
    ∃ parts, parts.length = twoSided operators ∧ Splits output.reverse parts := by
  induction h with
  | start => exact ⟨[], rfl, Postfix.splits_nil⟩
  | opener _ _ ih => exact ih
  | @operator _ _ operators output _ op d _ _ hop _ ih =>
      obtain ⟨parts, hlength, hsplits⟩ := ih
      have harity : op.arity = 2 := by
        cases op with
        | unary => exact absurd hop ofKind?_ne_unary
        | binary | assign => rfl
      refine ⟨parts ++ [d.items.reverse], ?_, ?_⟩
      · rw [twoSided, List.countP_cons_of_pos (by simpa using harity), List.length_append, hlength]
        rfl
      · rw [List.reverse_append]
        exact hsplits.concat d.complete_items

/-- After an operand, the newest draft is one more. -/
theorem Ended.exists_splits {l : Level} {ts : List Token} {operators : List Operator}
    {output : List Item} (h : Ended l ts operators output) :
    ∃ parts, parts.length = twoSided operators + 1 ∧ Splits output.reverse parts := by
  obtain @⟨_, _, _, output, d, hp, -, -⟩ := h
  obtain ⟨parts, hlength, hsplits⟩ := hp.exists_splits
  refine ⟨parts ++ [d.items.reverse], by simp [hlength], ?_⟩
  rw [List.reverse_append]
  exact hsplits.concat d.complete_items

-- ============================================================= the shape

namespace Yard

/-- How many expressions a yard has put out: the left operand of each
operator with two sides that waits, and the operand that was read last. -/
def expressionsOut (y : Yard) : Nat :=
  twoSided y.operators + if y.expectOperand then 0 else 1

/-- What holds of a yard after it has taken the tokens `read`. -/
structure InShape (y : Yard) (read : List Token) : Prop where
  /-- Between open parentheses, each waiting operator rests on the one below
  it. -/
  layered : ∀ segment ∈ y.operators.splitOn (.unary .group), segment.IsChain Operator.RestsOn
  /-- As many parentheses wait as are not closed. -/
  groups : openGroups y.operators = unclosed read
  /-- The output is a row of so many complete expressions, in one way
  only. -/
  output : ∃ parts, parts.length = y.expressionsOut
    ∧ ∀ parts', Splits y.output.reverse parts' ↔ parts' = parts

/-- Within each parenthesis, the operators waiting in a yard are layered. -/
theorem Reads.layered {y : Yard} {ts : List Token} (h : y.Reads ts) :
    ∀ segment ∈ y.operators.splitOn (.unary .group), segment.IsChain Operator.RestsOn := by
  unfold Reads at h
  split at h <;> exact isChain_segment h.layered

/-- The output of a yard is cut up into as many expressions as are out. -/
theorem Reads.exists_splits {y : Yard} {ts : List Token} (h : y.Reads ts) :
    ∃ parts, parts.length = y.expressionsOut ∧ Splits y.output.reverse parts := by
  unfold Reads at h
  unfold expressionsOut
  split at h
  · next hexp =>
      rw [if_pos hexp]
      exact h.exists_splits
  · next hexp =>
      rw [if_neg hexp]
      exact h.exists_splits

end Yard

-- ============================================================ the result

/-- Parsing an expression passes through yards in shape only. When it has
taken the tokens at the front of the events before it, errors between them
going on record, parsing goes on over the rest in some yard, and that yard
is in shape after these tokens, whatever comes next. -/
theorem yard_in_shape_after_tokens (y y' : Yard) (c : Cursor) (before after : List Event)
    (hpending : c.pending = before ++ after)
    (hfeed : y.restart.feedAll (tokensOf before) = .ok y') :
    y.expression c = y'.run (c.reported ++ errorsOf before) after
      ∧ y'.InShape (tokensOf before) := by
  have hreads : y'.Reads (tokensOf before) := y.reads_restart.feedAll hfeed
  refine ⟨?_, hreads.layered, ?_, ?_⟩
  · rw [Yard.expression, hpending]
    exact Yard.run_append _ _ (Yard.endsExpression_of_feedAll hfeed) hfeed
  · -- nothing is open at the start, so no closing parenthesis is left over
    obtain ⟨hstray, hgroups⟩ := Yard.openGroups_feedAll hfeed
    have hnone : openGroups y.restart.operators = 0 := rfl
    omega
  · obtain ⟨parts, hlength, hsplits⟩ := hreads.exists_splits
    refine ⟨parts, hlength, fun parts' => ⟨fun h => h.unique hsplits, ?_⟩⟩
    rintro rfl
    exact hsplits

/-- Within `a = b = (c) * d + (e - -!f);`, before the last two tokens: the
product is out, and two signs wait on a difference inside the parenthesis. -/
theorem yard_in_shape_after_tokens_inner_signs :
    let name (x : String) : Token := ⟨.identifier, x, none, 0, 1, 1⟩
    let mark (k : Kind) (s : String) : Token := ⟨k, s, none, 0, 1, 1⟩
    let ts : List Token := [name "a", mark .equal "=", name "b", mark .equal "=",
      mark .leftParen "(", name "c", mark .rightParen ")", mark .star "*", name "d",
      mark .plus "+", mark .leftParen "(", name "e", mark .minus "-", mark .minus "-",
      mark .bang "!", name "f"]
    let rest : List Token := [mark .rightParen ")", mark .semicolon ";"]
    let c := Cursor.ofTokens (ts ++ rest)
    let y : Yard :=
      { operators := [.unary .not, .unary .negative, .binary .minus, .unary .group, .binary .plus,
          .assign, .assign]
        output := [.operand (.variable "f"), .operand (.variable "e"),
          .operator (some (.binary .times)), .operand (.variable "d"),
          .operator (some (.unary .group)), .operand (.variable "c"), .operand (.variable "b"),
          .operand (.variable "a")]
        expectOperand := false }
    c.pending = ts.map .token ++ rest.map .token
      ∧ Yard.feedAll (Yard.restart {}) (tokensOf (ts.map .token)) = .ok y
      ∧ ({} : Yard).expression c = y.run [] (rest.map .token)
      ∧ y.InShape ts ∧ unclosed ts = 1 ∧ y.expressionsOut = 5 := by
  intro name mark ts rest c y
  have hpending : c.pending = ts.map .token ++ rest.map .token := rfl
  have hfeed : Yard.feedAll (Yard.restart {}) (tokensOf (ts.map .token)) = .ok y := rfl
  have h := yard_in_shape_after_tokens {} y c _ _ hpending hfeed
  exact ⟨hpending, hfeed, h.1, h.2, by decide, by decide⟩

end Lox

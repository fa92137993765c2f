/-
Parsing does not read positions.

A parser decides by the kinds of tokens and builds trees from their lexemes
and literals; where a token stands it only passes on, in the objection to a
token. So any change to the tokens that keeps kind, lexeme and literal, a
relabeling, commutes with parsing: the trees are the same, and the tokens
that failures point at are the relabeled ones (`program_relabel`).

The equation holds for every relabeling at once, which is more than it says
of any one of them. A relabeling that moves exactly the tokens outside a
given list shows that a failure points at a token of the cursor
(`mem_of_rejected`): nothing else could make the two sides agree.
-/
import Lox.Proofs.Tokens

namespace Lox

/-- A change of tokens that keeps what parsers read. -/
structure Relabeling (f : Token → Token) : Prop where
  kind : ∀ t, (f t).kind = t.kind
  lexeme : ∀ t, (f t).lexeme = t.lexeme
  literal : ∀ t, (f t).literal = t.literal

-- =========================================================== what changes

/-- The same event, with its token relabeled. -/
def Event.relabel (f : Token → Token) : Event → Event
  | .token t => .token (f t)
  | .error e => .error e

/-- The same cursor over relabeled tokens. -/
def Cursor.relabel (f : Token → Token) (c : Cursor) : Cursor :=
  { c with pending := c.pending.map (Event.relabel f) }

/-- The same failure, with the token that it points at relabeled. -/
def ParseFailure.relabel (f : Token → Token) : ParseFailure → ParseFailure
  | .rejected fault t => .rejected fault (t.map f)
  | .exhausted => .exhausted
  | .notNumeral lexeme => .notNumeral lexeme

/-- The same outcome over relabeled tokens. -/
def Parsed.relabel {α : Type} (f : Token → Token) (g : α → α) (r : Parsed α) : Parsed α :=
  (match r.1 with
    | .ok a => .ok (g a)
    | .error failure => .error (failure.relabel f), r.2.relabel f)

/-- The tokens of events that are relabeled are the tokens relabeled. -/
theorem tokensOf_relabel (f : Token → Token) (events : List Event) :
    tokensOf (events.map (Event.relabel f)) = (tokensOf events).map f := by
  induction events with
  | nil => rfl
  | cons event events ih =>
      cases event with
      | token t =>
          rw [List.map_cons, tokensOf_token, List.map_cons, ← ih]
          rfl
      | error e => exact ih

namespace Cursor

variable (f : Token → Token) (c : Cursor)

/-- Errors at the front are reported all the same. -/
theorem settle_relabel : (c.relabel f).settle = c.settle.relabel f := by
  unfold settle relabel
  dsimp only
  fun_induction settleFrom c.reported c.pending with
  | case1 reported e rest ih => exact ih
  | case2 reported pending hp =>
      cases pending with
      | nil => rfl
      | cons event rest =>
          cases event with
          | token t => rfl
          | error e => exact absurd rfl (hp e rest)

theorem front?_relabel : (c.relabel f).front? = c.front?.map f := by
  obtain ⟨pending, reported⟩ := c
  cases pending with
  | nil => rfl
  | cons event rest => cases event <;> rfl

/-- The next token is the same, relabeled. -/
theorem next_relabel : (c.relabel f).next = ((c.next).1.map f, (c.next).2.relabel f) := by
  unfold next
  rw [settle_relabel]
  generalize c.settle = settled
  obtain ⟨pending, reported⟩ := settled
  cases pending with
  | nil => rfl
  | cons event rest => cases event <;> rfl

end Cursor

-- ============================================================ expressions

section

variable {f : Token → Token}

/-- A parse in two parts respects relabeling if its second part does. -/
theorem Parsed.andThen_relabel {α β : Type} (r : Parsed α) {g : α → α} {h : β → β}
    {k : α → Cursor → Parsed β}
    (hk : ∀ a c, k (g a) (c.relabel f) = (k a c).relabel f h) :
    (r.relabel f g).andThen k = (r.andThen k).relabel f h := by
  rcases r with ⟨failure | a, c⟩
  · rfl
  · exact hk a c

/-- A failed feed over a relabeled token. -/
def relabelFeed {α : Type} (f : Token → Token) : Except ParseFailure α → Except ParseFailure α
  | .ok a => .ok a
  | .error failure => .error (failure.relabel f)

/-- What a token means as an operand is not changed by relabeling it. -/
theorem Yard.operand_relabel (hf : Relabeling f) (t : Token) :
    Yard.operand (f t) = relabelFeed f (Yard.operand t) := by
  unfold Yard.operand
  rw [hf.kind, hf.lexeme, hf.literal]
  split
  · cases Double.ofText? t.lexeme <;> rfl
  all_goals rfl

/-- A yard does the same with a token that is relabeled. -/
theorem Yard.feed_relabel (hf : Relabeling f) (y : Yard) (t : Token) :
    y.feed (f t) = relabelFeed f (y.feed t) := by
  unfold Yard.feed
  split
  · unfold Yard.feedOperand
    rw [hf.kind, Yard.operand_relabel hf]
    split
    · rfl
    · cases Yard.operand t <;> rfl
  · unfold Yard.feedOperator
    rw [hf.kind, hf.lexeme]
    split
    · split <;> rfl
    · split <;> rfl

/-- So it does with all tokens up to the end of the expression. -/
theorem Yard.run_relabel (hf : Relabeling f) (y : Yard) (reported : List LexError)
    (events : List Event) :
    y.run reported (events.map (Event.relabel f)) = (y.run reported events).relabel f id := by
  fun_induction Yard.run y reported events with
  | case1 => rfl
  | case2 y reported e rest ih => exact ih
  | case3 y reported t rest hends =>
      show Yard.run y reported (.token (f t) :: rest.map (Event.relabel f)) = _
      rw [Yard.run, hf.kind, if_pos hends]
      unfold Yard.finish
      split <;> rfl
  | case4 y reported t rest hends failure hfeed =>
      show Yard.run y reported (.token (f t) :: rest.map (Event.relabel f)) = _
      rw [Yard.run, hf.kind, if_neg hends, Yard.feed_relabel hf, hfeed]
      rfl
  | case5 y reported t rest hends y' hfeed ih =>
      show Yard.run y reported (.token (f t) :: rest.map (Event.relabel f)) = _
      rw [Yard.run, hf.kind, if_neg hends, Yard.feed_relabel hf, hfeed]
      exact ih

namespace Cursor

variable (hf : Relabeling f) (c : Cursor)

include hf

/-- An expression parses to the same tree, or is rejected for the same reason at
the same token, relabeled. -/
theorem expression_relabel : (c.relabel f).expression = c.expression.relabel f id :=
  Yard.run_relabel hf _ c.reported c.pending

-- ===================================================== simple statements

/-- Expecting a token looks at its kind only. -/
theorem expect_relabel (kind : Kind) (fault : SyntaxFault) :
    (c.relabel f).expect kind fault = (c.expect kind fault).relabel f f := by
  unfold expect
  rw [next_relabel]
  rcases c.next with ⟨_ | t, c'⟩
  · rfl
  · dsimp only [Option.map_some]
    rw [hf.kind]
    split <;> rfl

theorem declarationEnd_relabel (n : Node) :
    (c.relabel f).declarationEnd n = (c.declarationEnd n).relabel f id := by
  unfold declarationEnd
  rw [expect_relabel hf]
  exact Parsed.andThen_relabel _ fun _ _ => rfl

/-- What an expression ends with is a matter of kinds only. -/
theorem ended_relabel (fault : SyntaxFault) (make : Node → Node) :
    (c.relabel f).ended fault make = (c.ended fault make).relabel f id := by
  unfold ended
  rw [expression_relabel hf]
  apply Parsed.andThen_relabel
  intro e c'
  rw [expect_relabel hf]
  exact Parsed.andThen_relabel _ fun _ _ => rfl

/-- Behind `var` the name is kept, and the rest is a matter of kinds. -/
theorem varRest_relabel : (c.relabel f).varRest = c.varRest.relabel f id := by
  unfold varRest
  rw [expect_relabel hf]
  apply Parsed.andThen_relabel
  intro x c'
  simp only [look, settle_relabel, front?_relabel]
  cases c'.settle.front? with
  | none => rfl
  | some t =>
      dsimp only [Option.map_some]
      rw [hf.kind, hf.lexeme, next_relabel]
      by_cases ht : t.kind = .equal
      · rw [if_pos ht, if_pos ht]
        exact ended_relabel hf _ _ _
      · rw [if_neg ht, if_neg ht]
        exact declarationEnd_relabel hf _ _

/-- A simple statement respects relabeling. -/
theorem simple_relabel (kind : Kind) :
    (c.relabel f).simple kind = (c.simple kind).relabel f id := by
  unfold simple
  rw [next_relabel]
  split
  · exact ended_relabel hf _ _ _
  · exact varRest_relabel hf _
  · exact ended_relabel hf _ _ _

end Cursor

-- ================================================================= blocks

/-- The same turn over relabeled tokens. -/
def Turn.relabel (f : Token → Token) : Turn → Turn
  | .done r => .done (r.relabel f id)
  | .more blocks c => .more blocks (c.relabel f)

theorem Turn.place_relabel (n : Node) (c : Cursor) (blocks : OpenBlocks) :
    Turn.place n (c.relabel f) blocks = (Turn.place n c blocks).relabel f := by
  cases blocks <;> rfl

namespace Cursor

variable (hf : Relabeling f)

include hf

/-- What begins at a token is the same, relabeled. -/
theorem begin_relabel (c : Cursor) (t : Token) (blocks : OpenBlocks) :
    (c.relabel f).begin (f t) blocks = (c.begin t blocks).relabel f := by
  unfold begin
  rw [hf.kind, next_relabel, simple_relabel hf]
  split
  · rfl
  · rcases c.simple t.kind with ⟨failure | n, c'⟩
    · rfl
    · exact Turn.place_relabel n c' blocks

/-- One turn respects relabeling, as no block knows of positions. -/
theorem turn_relabel (c : Cursor) (blocks : OpenBlocks) :
    (c.relabel f).turn blocks = (c.turn blocks).relabel f := by
  unfold turn
  dsimp only
  rw [settle_relabel, front?_relabel]
  cases c.settle.front? with
  | none => cases blocks <;> rfl
  | some t =>
      cases blocks with
      | nil => exact begin_relabel hf _ t []
      | cons ss outer =>
          dsimp only [Option.map_some]
          rw [hf.kind, next_relabel]
          split
          · exact Turn.place_relabel _ _ outer
          · split
            · rfl
            · exact begin_relabel hf _ t (ss :: outer)

/-- So does a statement, by induction over its turns. -/
theorem statementIn_relabel (blocks : OpenBlocks) (c : Cursor) :
    statementIn blocks (c.relabel f) = (statementIn blocks c).relabel f id := by
  fun_induction statementIn blocks c with
  | case1 blocks c r hturn =>
      rw [statementIn_eq_resume, turn_relabel hf, hturn]
      rfl
  | case2 blocks c blocks' c' hturn ih =>
      rw [statementIn_eq_resume, turn_relabel hf, hturn]
      exact ih

-- =============================================================== programs

theorem programStep_relabel (c : Cursor) :
    (c.relabel f).programStep
      = ((c.programStep).1.map (relabelFeed f), (c.programStep).2.relabel f) := by
  unfold programStep
  rw [settle_relabel, front?_relabel]
  have hstatement : (c.settle.relabel f).statement = c.settle.statement.relabel f id :=
    statementIn_relabel hf [] c.settle
  rw [hstatement]
  cases c.settle.front? with
  | none => rfl
  | some t =>
      dsimp only [Option.map_some]
      rw [hf.kind]
      split
      · rfl
      · rcases c.settle.statement with ⟨failure | n, c'⟩ <;> rfl

/-- Relabeled tokens parse to the same statements, and the failure, if there
is one, points at the relabeled token. -/
theorem program_relabel (c : Cursor) :
    (c.relabel f).program
      = (c.program.1, c.program.2.1.map (ParseFailure.relabel f), c.program.2.2.relabel f) := by
  fun_induction program c with
  | case1 c h => rw [program_eq, programStep_relabel hf, h]; rfl
  | case2 c failure h => rw [program_eq, programStep_relabel hf, h]; rfl
  | case3 c n h ns failure after hrest ih =>
      rw [program_eq, programStep_relabel hf, h]
      dsimp only [Option.map_some, relabelFeed]
      rw [ih, hrest]

end Cursor

end

-- ============================================== tokens that failures name

/-- The change that moves the tokens outside a list to the next line. -/
def displaced (ts : List Token) (t : Token) : Token :=
  if t ∈ ts then t else { t with line := t.line + 1 }

/-- Moving tokens to another line changes nothing that parsers read. -/
theorem relabeling_displaced (ts : List Token) : Relabeling (displaced ts) := by
  constructor <;> intro t <;> unfold displaced <;> split <;> rfl

/-- A token that stays where it was is one of the list. -/
theorem mem_of_displaced {ts : List Token} {t : Token} (h : displaced ts t = t) : t ∈ ts := by
  unfold displaced at h
  split at h
  · assumption
  · have hline : t.line + 1 = t.line := congrArg Token.line h
    omega

namespace Cursor

/-- No token of a cursor is outside its tokens. -/
theorem relabel_displaced (c : Cursor) : c.relabel (displaced (tokensOf c.pending)) = c := by
  have hevents : ∀ event ∈ c.pending,
      Event.relabel (displaced (tokensOf c.pending)) event = event := by
    intro event hevent
    cases event with
    | error e => rfl
    | token t =>
        have ht : t ∈ tokensOf c.pending := List.mem_filterMap.2 ⟨_, hevent, rfl⟩
        exact congrArg Event.token (if_pos ht)
  unfold relabel
  rw [List.map_congr_left hevents, List.map_id']

/-- A failure that stays the same when all other tokens are moved names one of
the cursor's. -/
theorem mem_of_rejected {c : Cursor} {failure : ParseFailure} {fault : SyntaxFault} {t : Token}
    (h : failure.relabel (displaced (tokensOf c.pending)) = failure)
    (hfailure : failure = .rejected fault (some t)) : t ∈ tokensOf c.pending := by
  rw [hfailure] at h
  injection h with _ ht
  exact mem_of_displaced (Option.some.inj ht)

/-- An expression is rejected at one of the tokens. -/
theorem expression_rejected_mem {c : Cursor} {fault : SyntaxFault} {t : Token}
    (h : c.expression.1 = .error (.rejected fault (some t))) : t ∈ tokensOf c.pending := by
  have hrelabel := expression_relabel (relabeling_displaced (tokensOf c.pending)) c
  rw [relabel_displaced] at hrelabel
  have hfst := congrArg Prod.fst hrelabel
  simp only [Parsed.relabel, h] at hfst
  exact mem_of_rejected (Except.error.inj hfst).symm rfl

/-- A program is rejected at one of the tokens. -/
theorem program_rejected_mem {c : Cursor} {fault : SyntaxFault} {t : Token}
    (h : c.program.2.1 = some (.rejected fault (some t))) : t ∈ tokensOf c.pending := by
  have hrelabel := program_relabel (relabeling_displaced (tokensOf c.pending)) c
  rw [relabel_displaced] at hrelabel
  have hsnd := congrArg (fun r => r.2.1) hrelabel
  dsimp only at hsnd
  rw [h] at hsnd
  exact mem_of_rejected (Option.some.inj hsnd).symm rfl

end Cursor

end Lox

/-
Parsing reads the tokens only.

Lexical errors lie between the tokens of a scan, and a cursor reports them as
it passes; no parser looks at them. `bare` drops them, those to come and
those on record, and leaves the cursor over the tokens alone. Every step of
the parsers commutes with that: a bare cursor gives the same tree or the
same failure, and ends bare where the other one ends. So the statements of a
source are those of its list of tokens, and what is on record does not
matter to the parse (`program_bare`).
-/
import Lox.Proofs.Program

namespace Lox

-- ================================================================ cursors

namespace Cursor

/-- The cursor over the tokens of another. -/
def bare (c : Cursor) : Cursor :=
  ofTokens (tokensOf c.pending)

/-- Bare cursors are told apart by their tokens alone. -/
theorem bare_eq_of_tokens {c c' : Cursor} (h : tokensOf c.pending = tokensOf c'.pending) :
    c.bare = c'.bare := by
  unfold bare
  rw [h]

/-- A bare cursor has the tokens of the cursor it was made from. -/
@[simp]
theorem tokensOf_bare (c : Cursor) : tokensOf c.bare.pending = tokensOf c.pending :=
  tokensOf_map_token _

/-- Reporting the errors at the front is of no account to the bare cursor. -/
@[simp]
theorem bare_settle (c : Cursor) : c.settle.bare = c.bare :=
  bare_eq_of_tokens (tokensOf_settle c)

/-- There is nothing to report before a token of a bare cursor. -/
@[simp]
theorem settle_bare (c : Cursor) : c.bare.settle = c.bare := by
  unfold bare ofTokens settle
  cases tokensOf c.pending with
  | nil => rfl
  | cons t ts => rfl

/-- The bare cursor has in front what the cursor has behind its errors. -/
@[simp]
theorem front?_bare (c : Cursor) : c.bare.front? = c.settle.front? := by
  rw [← settle_bare, front?_settle, front?_settle, tokensOf_bare]

/-- Both take the same token. -/
theorem next_bare (c : Cursor) : c.bare.next = ((c.next).1, (c.next).2.bare) := by
  cases htokens : tokensOf c.pending with
  | nil =>
      have hfront : c.settle.front? = none := by
        rw [front?_settle, htokens]
        rfl
      rw [next_of_front_none hfront, bare_settle]
      unfold bare
      rw [htokens]
      rfl
  | cons t ts =>
      obtain ⟨skipped, rest, hc, hskipped, hrest⟩ := exists_skipped_of_tokensOf htokens
      rw [next_of_pending hc hskipped]
      unfold bare ofTokens
      rw [htokens, hrest]
      rfl

end Cursor

-- ================================================================ parsing

/-- The same outcome at a bare cursor. -/
def Parsed.bare {α : Type} (r : Parsed α) : Parsed α :=
  (r.1, r.2.bare)

/-- A parse in two parts does not depend on errors if its second part does
not. -/
theorem Parsed.andThen_bare {α β : Type} (r : Parsed α) {k : α → Cursor → Parsed β}
    (hk : ∀ a c, k a c.bare = (k a c).bare) : r.bare.andThen k = (r.andThen k).bare := by
  rcases r with ⟨failure | a, c⟩
  · rfl
  · exact hk a c

/-- The yard is run over tokens only. -/
theorem Yard.run_bare (y : Yard) (reported : List LexError) (events : List Event) :
    y.run [] ((tokensOf events).map .token) = (y.run reported events).bare := by
  fun_induction Yard.run y reported events with
  | case1 => rfl
  | case2 y reported e rest ih => exact ih
  | case3 y reported t rest hends =>
      rw [tokensOf_token, List.map_cons, Yard.run, if_pos hends]
      rfl
  | case4 y reported t rest hends failure hfeed =>
      rw [tokensOf_token, List.map_cons, Yard.run, if_neg hends, hfeed]
      rfl
  | case5 y reported t rest hends y' hfeed ih =>
      rw [tokensOf_token, List.map_cons, Yard.run, if_neg hends, hfeed]
      exact ih

namespace Cursor

/-- Parsing an expression does not depend on the errors between its tokens. -/
theorem expression_bare (c : Cursor) : c.bare.expression = c.expression.bare :=
  Yard.run_bare _ c.reported c.pending

/-- Expecting a token does not depend on the errors before it. -/
theorem expect_bare (c : Cursor) (kind : Kind) (fault : SyntaxFault) :
    c.bare.expect kind fault = (c.expect kind fault).bare := by
  unfold expect
  rw [next_bare]
  rcases c.next with ⟨_ | t, c'⟩
  · rfl
  · dsimp only
    split <;> rfl

theorem ended_bare (c : Cursor) (fault : SyntaxFault) (make : Node → Node) :
    c.bare.ended fault make = (c.ended fault make).bare := by
  unfold ended
  rw [expression_bare]
  apply Parsed.andThen_bare
  intro e c'
  rw [expect_bare]
  exact Parsed.andThen_bare _ fun _ _ => rfl

theorem declarationEnd_bare (n : Node) (c : Cursor) :
    c.bare.declarationEnd n = (c.declarationEnd n).bare := by
  unfold declarationEnd
  rw [expect_bare]
  exact Parsed.andThen_bare _ fun _ _ => rfl

theorem varRest_bare (c : Cursor) : c.bare.varRest = c.varRest.bare := by
  unfold varRest
  rw [expect_bare]
  apply Parsed.andThen_bare
  intro x c'
  simp only [look, settle_bare, front?_bare]
  cases hfront : c'.settle.front? with
  | none =>
      show _ = (Except.error ParseFailure.exhausted, c'.settle.bare)
      rw [bare_settle]
  | some t =>
      dsimp only
      by_cases ht : t.kind = .equal
      · rw [if_pos ht, if_pos ht, next_bare, next_settle]
        exact ended_bare _ _ _
      · rw [if_neg ht, if_neg ht, ← declarationEnd_bare, bare_settle]

theorem simple_bare (c : Cursor) (kind : Kind) : c.bare.simple kind = (c.simple kind).bare := by
  unfold simple
  split
  · rw [next_bare]
    exact ended_bare _ _ _
  · rw [next_bare]
    exact varRest_bare _
  · exact ended_bare _ _ _

end Cursor

/-- The same turn at a bare cursor. -/
def Turn.bare : Turn → Turn
  | .done r => .done r.bare
  | .more blocks c => .more blocks c.bare

/-- Where a finished statement belongs is a matter of the open blocks alone. -/
theorem Turn.place_bare (n : Node) (c : Cursor) (blocks : OpenBlocks) :
    Turn.place n c.bare blocks = (Turn.place n c blocks).bare := by
  cases blocks with
  | nil => rfl
  | cons => rfl

namespace Cursor

/-- What begins at a token does not depend on the errors behind it. -/
theorem begin_bare (c : Cursor) (t : Token) (blocks : OpenBlocks) :
    c.bare.begin t blocks = (c.begin t blocks).bare := by
  unfold begin
  by_cases ht : t.kind = .leftBrace
  · rw [if_pos ht, if_pos ht, next_bare]
    rfl
  · rw [if_neg ht, if_neg ht, simple_bare]
    rcases c.simple t.kind with ⟨failure | n, c'⟩
    · rfl
    · exact Turn.place_bare n c' blocks

theorem turn_bare (c : Cursor) (blocks : OpenBlocks) :
    c.bare.turn blocks = (c.turn blocks).bare := by
  unfold turn
  dsimp only
  rw [settle_bare, front?_bare]
  have hbegin (t : Token) (blocks : OpenBlocks) :
      c.bare.begin t blocks = (c.settle.begin t blocks).bare := by
    rw [← begin_bare, bare_settle]
  -- the turn is decided by the token in front, which both cursors show
  cases hfront : c.settle.front? with
  | none =>
      cases blocks with
      | nil =>
          show _ = Turn.done (_, c.settle.bare)
          rw [bare_settle]
      | cons =>
          show _ = Turn.done (_, c.settle.bare)
          rw [bare_settle]
  | some t =>
      cases blocks with
      | nil => exact hbegin t []
      | cons ss outer =>
          dsimp only
          by_cases hr : t.kind = .rightBrace
          · rw [if_pos hr, if_pos hr, next_bare, next_settle]
            exact Turn.place_bare _ _ outer
          · rw [if_neg hr, if_neg hr]
            by_cases hend : t.kind = .eof
            · rw [if_pos hend, if_pos hend]
              show _ = Turn.done (_, c.settle.bare)
              rw [bare_settle]
            · rw [if_neg hend, if_neg hend]
              exact hbegin t (ss :: outer)

/-- A whole statement does not depend on the errors behind it either, with any
blocks open, by induction over its turns. -/
theorem statementIn_bare (blocks : OpenBlocks) (c : Cursor) :
    statementIn blocks c.bare = (statementIn blocks c).bare := by
  fun_induction statementIn blocks c with
  | case1 blocks c r hturn =>
      rw [statementIn_eq_resume, turn_bare, hturn]
      rfl
  | case2 blocks c blocks' c' hturn ih =>
      rw [statementIn_eq_resume, turn_bare, hturn]
      exact ih

-- =============================================================== programs

/-- The next statement of a program is the same, errors or not. -/
theorem programStep_bare (c : Cursor) :
    c.bare.programStep = ((c.programStep).1, (c.programStep).2.bare) := by
  unfold programStep
  rw [statement_settle, statement_settle, settle_bare, front?_bare]
  have hstatement : c.bare.statement = c.statement.bare := statementIn_bare [] c
  split
  · rw [bare_settle]
  · split
    · rw [bare_settle]
    · rw [hstatement]
      rfl

/-- The statements and the failure of a program are those of its tokens. -/
theorem program_bare (c : Cursor) :
    c.bare.program = (c.program.1, c.program.2.1, c.program.2.2.bare) := by
  fun_induction program c with
  | case1 c h =>
      rw [program_eq, programStep_bare, h]
  | case2 c failure h =>
      rw [program_eq, programStep_bare, h]
  | case3 c n h ns failure after hrest ih =>
      rw [program_eq, programStep_bare, h]
      dsimp only
      rw [ih, hrest]

end Cursor

end Lox

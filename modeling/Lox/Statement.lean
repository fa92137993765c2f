/-
Statement parsing.

The first token chooses the form: `print`, `var`, a block, or an expression.
Blocks nest, so the parser keeps the blocks that are open, innermost first,
each with the statements it has so far; a finished statement goes to the
innermost open block, or is the answer if none is open. Each turn of the
loop uses up a token, which is why it ends.

A statement is parsed only when it is asked for, and no token beyond its
last one is looked at: a program can be run while it is being read.
-/
import Lox.Yard

namespace Lox

-- =========================================================== combinators

/-- Go on after a successful parse; a failure stays what it is. -/
def Parsed.andThen {α β : Type} (r : Parsed α) (k : α → Cursor → Parsed β) : Parsed β :=
  match r with
  | (.ok a, c) => k a c
  | (.error failure, c) => (.error failure, c)

@[simp]
theorem Parsed.andThen_ok {α β : Type} (a : α) (c : Cursor) (k : α → Cursor → Parsed β) :
    Parsed.andThen (.ok a, c) k = k a c := rfl

@[simp]
theorem Parsed.andThen_error {α β : Type} (failure : ParseFailure) (c : Cursor)
    (k : α → Cursor → Parsed β) : Parsed.andThen (.error failure, c) k = (.error failure, c) := rfl

/-- A parse in two parts succeeds exactly if both parts do. -/
theorem Parsed.andThen_eq_ok_iff {α β : Type} {r : Parsed α} {k : α → Cursor → Parsed β} {b : β}
    {c' : Cursor} : r.andThen k = (.ok b, c') ↔ ∃ a c, r = (.ok a, c) ∧ k a c = (.ok b, c') := by
  rcases r with ⟨failure | a, c⟩
  · constructor
    · intro h; cases h
    · rintro ⟨a, c, h, -⟩; cases h
  · constructor
    · intro h; exact ⟨a, c, rfl, h⟩
    · rintro ⟨a, c, h, hk⟩; cases h; exact hk

namespace Cursor

/-- Take a token of the given kind; a token of another kind is taken as well
and reported with the given fault. -/
def expect (c : Cursor) (kind : Kind) (fault : SyntaxFault) : Parsed Token :=
  match c.next with
  | (none, after) => (.error .exhausted, after)
  | (some t, after) =>
      if t.kind = kind then (.ok t, after) else (.error (.rejected fault (some t)), after)

-- ====================================================== simple statements

/-- A print statement, from after its first word. -/
def printRest (c : Cursor) : Parsed Node :=
  c.expression.andThen fun expr c =>
    (c.expect .semicolon .semicolonAfterValue).andThen fun _ c => (.ok (.printStmt expr), c)

/-- The end of a declaration, after its name or its initial value. -/
def declarationEnd (node : Node) (c : Cursor) : Parsed Node :=
  (c.expect .semicolon .semicolonAfterDeclaration).andThen fun _ c => (.ok node, c)

/-- A variable declaration, from after its first word. -/
def varRest (c : Cursor) : Parsed Node :=
  (c.expect .identifier .variableName).andThen fun name c =>
    match c.look with
    | (none, c) => (.error .exhausted, c)
    | (some t, c) =>
        if t.kind = .equal then
          (c.next).2.expression.andThen fun init c => c.declarationEnd (.define name.lexeme init)
        else c.declarationEnd (.declare name.lexeme)

/-- The statement of an expression: an assignment at its root makes it an
assignment statement. -/
def asStatement : Node → Node
  | .assignment name value => .assignStmt name value
  | expr => .exprStmt expr

/-- An expression statement. -/
def exprRest (c : Cursor) : Parsed Node :=
  c.expression.andThen fun expr c =>
    (c.expect .semicolon .semicolonAfterExpression).andThen fun _ c => (.ok (asStatement expr), c)

/-- A statement other than a block, whose first token has the given kind. -/
def simple (c : Cursor) (kind : Kind) : Parsed Node :=
  match kind with
  | .printKw => (c.next).2.printRest
  | .varKw => (c.next).2.varRest
  | _ => c.exprRest

-- =============================================================== progress

end Cursor

/-- On success, fewer than the given number of events are left. -/
def Parsed.Within {α : Type} (r : Parsed α) (n : Nat) : Prop :=
  ∀ a, r.1 = .ok a → r.2.pending.length < n

/-- A parse in two parts leaves fewer events than there were if its second part
does. -/
theorem Parsed.within_andThen {α β : Type} {r : Parsed α} {k : α → Cursor → Parsed β} {n : Nat}
    (h : ∀ a c, r = (.ok a, c) → (k a c).Within n) : (r.andThen k).Within n := by
  rcases r with ⟨_ | a, c⟩
  · intro b hb; cases hb
  · exact h a c rfl

/-- What leaves fewer events than one number leaves fewer than a larger one. -/
theorem Parsed.Within.mono {α : Type} {r : Parsed α} {m n : Nat} (h : r.Within m) (hmn : m ≤ n) :
    r.Within n :=
  fun a ha => Nat.lt_of_lt_of_le (h a ha) hmn

namespace Cursor

/-- Taking an expected token leaves fewer events. -/
theorem within_expect (c : Cursor) (kind : Kind) (fault : SyntaxFault) :
    (c.expect kind fault).Within c.pending.length := by
  intro t h
  unfold expect at h ⊢
  split at h
  · cases h
  · next t' after heq =>
      have hlt : (c.next).2.pending.length < c.pending.length :=
        @length_next_lt c t' (by rw [heq])
      rw [heq] at hlt
      split <;> exact hlt

/-- A parse that ends by taking one token, as every statement does. -/
theorem within_expect_andThen (c : Cursor) (kind : Kind) (fault : SyntaxFault) (node : Node) :
    ((c.expect kind fault).andThen fun _ c => (.ok node, c)).Within c.pending.length := by
  apply Parsed.within_andThen
  intro t after heq _ _
  have h := within_expect c kind fault t
  rw [heq] at h
  exact h rfl

/-- Parsing an expression leaves no more events than there were. -/
theorem length_of_expression {c after : Cursor} {node : Node}
    (h : c.expression = (.ok node, after)) : after.pending.length ≤ c.pending.length := by
  have hle := length_expression_le c
  rw [h] at hle
  exact hle

theorem within_printRest (c : Cursor) : c.printRest.Within c.pending.length := by
  apply Parsed.within_andThen
  intro expr after h
  exact (within_expect_andThen after _ _ _).mono (length_of_expression h)

/-- An expression statement takes at least its semicolon. -/
theorem within_exprRest (c : Cursor) : c.exprRest.Within c.pending.length := by
  apply Parsed.within_andThen
  intro expr after h
  exact (within_expect_andThen after _ _ _).mono (length_of_expression h)

/-- A declaration takes at least the name behind `var`. -/
theorem within_varRest (c : Cursor) : c.varRest.Within c.pending.length := by
  apply Parsed.within_andThen
  intro name named hname
  have hlt : named.pending.length < c.pending.length := by
    have h := within_expect c .identifier .variableName name
    rw [hname] at h
    exact h rfl
  have hsettle := length_settle_le named
  split
  · intro _ h; cases h
  · next t looked hlook =>
      have hlooked : looked.pending.length ≤ named.pending.length := by
        have : looked = named.settle := (congrArg Prod.snd hlook).symm
        rw [this]
        exact hsettle
      split
      · apply Parsed.within_andThen
        intro init after h
        have h₁ := length_of_expression h
        have h₂ := length_next_le looked
        exact (within_expect_andThen after _ _ _).mono (by omega)
      · exact (within_expect_andThen looked _ _ _).mono (by omega)

/-- Every simple statement takes a token. -/
theorem within_simple (c : Cursor) (kind : Kind) : (c.simple kind).Within c.pending.length := by
  unfold simple
  split
  · exact (within_printRest _).mono (length_next_le c)
  · exact (within_varRest _).mono (length_next_le c)
  · exact within_exprRest c

-- ================================================================ blocks

end Cursor

/-- The blocks that are open, innermost first, each with its statements so
far, last one first. -/
abbrev OpenBlocks := List (List Node)

/-- What one turn of the statement loop leads to. -/
inductive Turn where
  | done (r : Parsed Node)
  | more (blocks : OpenBlocks) (c : Cursor)

/-- A finished statement goes to the innermost open block, or is the answer
if none is open. -/
def Turn.place (node : Node) (c : Cursor) : OpenBlocks → Turn
  | [] => .done (.ok node, c)
  | statements :: outer => .more ((node :: statements) :: outer) c

namespace Cursor

/-- Start the statement whose first token is at the front. -/
def begin (c : Cursor) (t : Token) (blocks : OpenBlocks) : Turn :=
  if t.kind = .leftBrace then .more ([] :: blocks) (c.next).2
  else
    match c.simple t.kind with
    | (.ok node, rest) => .place node rest blocks
    | (.error failure, rest) => .done (.error failure, rest)

/-- One turn: close the innermost open block if it ends here, else start a
statement. -/
def turn (c : Cursor) (blocks : OpenBlocks) : Turn :=
  let here := c.settle
  match here.front?, blocks with
  | none, [] => .done (.error (.rejected .endInStatement none), here)
  | none, _ :: _ => .done (.error .exhausted, here)
  | some t, [] => here.begin t []
  | some t, statements :: outer =>
      if t.kind = .rightBrace then .place (.block statements.reverse) (here.next).2 outer
      else if t.kind = .eof then .done (.error (.rejected .braceAfterBlock (some t)), here)
      else here.begin t (statements :: outer)

end Cursor

/-- A turn leaves fewer than the given number of events, unless it ends in a
failure. -/
def Turn.Within (n : Nat) : Turn → Prop
  | .done r => r.Within n
  | .more _ c => c.pending.length < n

/-- Placing a finished statement in its block leaves the events as they are. -/
theorem Turn.within_place {node : Node} {c : Cursor} {blocks : OpenBlocks} {n : Nat}
    (h : c.pending.length < n) : (Turn.place node c blocks).Within n := by
  cases blocks with
  | nil => exact fun _ _ => h
  | cons => exact h

theorem Turn.Within.mono {turn : Turn} {m n : Nat} (h : turn.Within m) (hmn : m ≤ n) :
    turn.Within n := by
  cases turn with
  | done r => exact Parsed.Within.mono h hmn
  | more _ c => exact Nat.lt_of_lt_of_le h hmn

namespace Cursor

/-- Where there is a token in front, taking it leaves fewer events. -/
theorem length_next_lt_of_front {c : Cursor} {t : Token} (h : c.front? = some t) :
    (c.next).2.pending.length < c.pending.length := by
  apply @length_next_lt c t
  unfold front? at h
  split at h
  · next t' rest hp =>
      unfold next settle
      rw [hp, settleFrom]
      · exact h
      · intro e rest' hcons; cases hcons
  · cases h

/-- Beginning a statement takes a token. -/
theorem within_begin {c : Cursor} {t : Token} (h : c.front? = some t) (blocks : OpenBlocks) :
    (c.begin t blocks).Within c.pending.length := by
  unfold begin
  split
  · exact length_next_lt_of_front h
  · split
    · next node rest heq =>
        have hlt := within_simple c t.kind node (by rw [heq])
        rw [heq] at hlt
        exact Turn.within_place hlt
    · intro _ hok; cases hok

/-- Every turn that goes on has taken a token, so that turns come to an end. -/
theorem within_turn (c : Cursor) (blocks : OpenBlocks) :
    (c.turn blocks).Within c.pending.length := by
  apply Turn.Within.mono _ (length_settle_le c)
  unfold turn
  dsimp only
  split
  · intro _ hok; cases hok
  · intro _ hok; cases hok
  · next h => exact within_begin h []
  · next statements outer h =>
      split
      · exact Turn.within_place (length_next_lt_of_front h)
      · split
        · intro _ hok; cases hok
        · exact within_begin h (statements :: outer)

-- ============================================================ statements

/-- Parse on to the end of the outermost open block, or one statement if
none is open. -/
def statementIn (blocks : OpenBlocks) (c : Cursor) : Parsed Node :=
  match _h : c.turn blocks with
  | .done r => r
  | .more blocks' c' => statementIn blocks' c'
termination_by c.pending.length
decreasing_by
  have hlt := within_turn c blocks
  rw [_h] at hlt
  exact hlt

/-- Parse one statement. -/
def statement (c : Cursor) : Parsed Node :=
  statementIn [] c

/-- A statement, with whatever blocks open, takes a token. -/
theorem within_statementIn (blocks : OpenBlocks) (c : Cursor) :
    (statementIn blocks c).Within c.pending.length := by
  fun_induction statementIn blocks c with
  | case1 blocks c r h =>
      have hturn := within_turn c blocks
      rw [h] at hturn
      exact hturn
  | case2 blocks c blocks' c' h ih =>
      have hturn := within_turn c blocks
      rw [h] at hturn
      exact ih.mono (Nat.le_of_lt hturn)

-- ============================================================== programs

/-- The next statement of a program; nothing at the end token, or where the
tokens run out between two statements. -/
def programStep (c : Cursor) : Option (Except ParseFailure Node) × Cursor :=
  match c.settle.front? with
  | none => (none, c.settle)
  | some t =>
      if t.kind = .eof then (none, c.settle)
      else (some (c.settle.statement).1, (c.settle.statement).2)

/-- Every statement of a program takes a token, so that programs come to an
end. -/
theorem length_programStep_lt {c : Cursor} {node : Node} (h : (c.programStep).1 = some (.ok node)) :
    (c.programStep).2.pending.length < c.pending.length := by
  unfold programStep at h ⊢
  split at h
  · cases h
  · split at h
    · cases h
    · next hk =>
        rw [if_neg hk]
        injection h with hok
        exact Nat.lt_of_lt_of_le (within_statementIn [] c.settle node hok) (length_settle_le c)

/-- All statements of a program up to its end or its first failure, the
failure if there is one, and where the reader stands then. -/
def program (c : Cursor) : List Node × Option ParseFailure × Cursor :=
  match _h : (c.programStep).1 with
  | none => ([], none, (c.programStep).2)
  | some (.error failure) => ([], some failure, (c.programStep).2)
  | some (.ok node) =>
      let (nodes, failure, after) := program (c.programStep).2
      (node :: nodes, failure, after)
termination_by c.pending.length
decreasing_by exact length_programStep_lt _h

end Cursor

end Lox

/-
The reader's place in a sequence of scanning events.

A cursor delivers the tokens of the sequence one by one. Lexical errors are
not tokens: an error is reported when the reader looks at or takes the token
that follows it, and never earlier. So a reader that stops part of the way
has reported exactly the errors before the last token it looked at.
-/
import Lox.Scanner

namespace Lox

/-- The events not yet passed, and the lexical errors reported so far, oldest
first. -/
structure Cursor where
  pending : List Event
  reported : List LexError := []
deriving Repr

namespace Cursor

def ofSource (source : String) : Cursor :=
  { pending := scan source }

/-- A cursor over exactly the given tokens. -/
def ofTokens (tokens : List Token) : Cursor :=
  { pending := tokens.map .token }

-- ============================================================== settling

/-- Report the errors at the front of some events. -/
def settleFrom (reported : List LexError) : List Event → Cursor
  | .error e :: rest => settleFrom (reported ++ [e]) rest
  | pending => ⟨pending, reported⟩

/-- The cursor with the errors before its next token reported. -/
def settle (c : Cursor) : Cursor :=
  settleFrom c.reported c.pending

/-- The token at the front, if it is one. -/
def front? (c : Cursor) : Option Token :=
  match c.pending with
  | .token t :: _ => some t
  | _ => none

-- =============================================================== reading

/-- The next token, which stays the next, and the cursor after looking. -/
def look (c : Cursor) : Option Token × Cursor :=
  (c.settle.front?, c.settle)

/-- The next token and the cursor past it. -/
def next (c : Cursor) : Option Token × Cursor :=
  match c.settle.pending with
  | .token t :: rest => (some t, ⟨rest, c.settle.reported⟩)
  | _ => (none, c.settle)

/-- The errors reported so far, and the cursor with none on record. -/
def takeReported (c : Cursor) : List LexError × Cursor :=
  (c.reported, { c with reported := [] })

-- ============================================================== progress

/-- Settling makes no event. -/
theorem length_settleFrom_le (reported : List LexError) (events : List Event) :
    (settleFrom reported events).pending.length ≤ events.length := by
  fun_induction settleFrom reported events with
  | case1 reported e rest ih => simp only [List.length_cons]; omega
  | case2 => exact Nat.le_refl _

/-- A settled cursor is no farther from the end. -/
theorem length_settle_le (c : Cursor) : c.settle.pending.length ≤ c.pending.length :=
  length_settleFrom_le c.reported c.pending

theorem length_next_le (c : Cursor) : (c.next).2.pending.length ≤ c.pending.length := by
  have h := length_settle_le c
  unfold next
  split
  · next hs => rw [hs] at h; simp only [List.length_cons] at h; simp only; omega
  · exact h

/-- Taking a token makes the rest shorter. -/
theorem length_next_lt {c : Cursor} {t : Token} (h : (c.next).1 = some t) :
    (c.next).2.pending.length < c.pending.length := by
  have hle := length_settle_le c
  unfold next at h ⊢
  split at h
  · next hs => rw [hs] at hle; simp only [List.length_cons] at hle; simp only; omega
  · simp at h

/-- What was settled stays as it is. -/
theorem settleFrom_settleFrom (reported : List LexError) (events : List Event) :
    (settleFrom reported events).settle = settleFrom reported events := by
  fun_induction settleFrom reported events with
  | case1 _ _ _ ih => exact ih
  | case2 reported pending hp =>
      unfold settle settleFrom
      split
      · next e rest hcons => exact absurd hcons (hp e rest)
      · rfl

@[simp]
theorem settle_settle (c : Cursor) : c.settle.settle = c.settle :=
  settleFrom_settleFrom c.reported c.pending

/-- Looking does not change what is taken next. -/
@[simp]
theorem next_look (c : Cursor) : (c.look).2.next = c.next := by
  simp [look, next]

/-- What is looked at is what is taken next. -/
theorem fst_next (c : Cursor) : (c.next).1 = (c.look).1 := by
  unfold next look front?
  split <;> simp_all

end Cursor

end Lox

/-
A scan that goes no further than it is asked to.

A running scan delivers one token at a time. It reads on from where it
stands, puts the lexical errors it meets on record, and stops behind the
next token; with the end token it is over. A reader with lookahead may see
the next token before taking it: the token then waits in a slot, and nothing
is scanned while it waits.

A reader is called in three ways, and what it answers to a sequence of calls
is all that can be seen of it. A cursor and a plain list of tokens can be
called in the same ways.
-/
import Lox.Cursor

namespace Lox

-- ========================================================== running scans

/-- A scan under way: where it stands, whether it has delivered the end
token, and the errors it has met, oldest first. -/
structure RunningScan where
  scanner : Scanner
  isOver : Bool := false
  reported : List LexError := []
deriving Repr

namespace RunningScan

def ofSource (source : String) : RunningScan :=
  { scanner := .ofSource source }

/-- The next token, and the scan behind it; no token once the scan is
over. -/
def next (r : RunningScan) : Option Token × RunningScan :=
  if r.isOver then (none, r)
  else
    let s := r.scanner.skipTrivia
    if _h : s.rest = [] then (some s.endToken, { r with scanner := s, isOver := true })
    else
      match s.scanToken.1 with
      | .token t => (some t, { r with scanner := s.scanToken.2 })
      | .error e => next { scanner := s.scanToken.2, reported := r.reported ++ [e] }
termination_by r.scanner.rest.length
decreasing_by
  exact Nat.lt_of_lt_of_le (Scanner.length_scanToken_lt _h) (Scanner.length_skipTrivia_le _)

end RunningScan

-- ============================================================== lookahead

/-- A running scan with a slot for the token that was looked at and not yet
taken. -/
structure Lookahead where
  scan : RunningScan
  slot : Option Token := none
deriving Repr

namespace Lookahead

def ofSource (source : String) : Lookahead :=
  { scan := .ofSource source }

/-- The next token, which stays the next, and the reader after looking. -/
def look (l : Lookahead) : Option Token × Lookahead :=
  match l.slot with
  | some t => (some t, l)
  | none => (l.scan.next.1, ⟨l.scan.next.2, l.scan.next.1⟩)

/-- The next token and the reader past it. -/
def take (l : Lookahead) : Option Token × Lookahead :=
  match l.slot with
  | some t => (some t, { l with slot := none })
  | none => (l.scan.next.1, ⟨l.scan.next.2, none⟩)

end Lookahead

-- ================================================================== calls

/-- The ways to call a reader of tokens. -/
inductive Call where
  /-- Look at the next token. -/
  | peek
  /-- Take the next token. -/
  | advance
  /-- Ask whether there is a next token. -/
  | hasNext
deriving DecidableEq, Repr

/-- What a reader answers; without a next token it refuses to look or to
advance. -/
inductive Answer where
  | looked (t : Option Token)
  | took (t : Option Token)
  | more (there : Bool)
deriving DecidableEq, Repr

/-- The token that is handed out with an answer for good. -/
def Answer.taken? : Answer → Option Token
  | .took t => t
  | _ => none

/-- The answers of a reader to some calls, and the reader after them. -/
def answers {σ : Type} (step : σ → Call → Answer × σ) (s : σ) : List Call → List Answer × σ
  | [] => ([], s)
  | call :: calls =>
      let later := answers step (step s call).2 calls
      ((step s call).1 :: later.1, later.2)

def Lookahead.call (l : Lookahead) : Call → Answer × Lookahead
  | .peek => (.looked l.look.1, l.look.2)
  | .advance => (.took l.take.1, l.take.2)
  | .hasNext => (.more l.look.1.isSome, l.look.2)

def Cursor.call (c : Cursor) : Call → Answer × Cursor
  | .peek => (.looked c.look.1, c.look.2)
  | .advance => (.took c.next.1, c.next.2)
  | .hasNext => (.more c.look.1.isSome, c.look.2)

/-- A list of tokens as a reader: the next token is the first, and taking it
leaves the others. -/
def callTokens (ts : List Token) : Call → Answer × List Token
  | .peek => (.looked ts.head?, ts)
  | .advance => (.took ts.head?, ts.tail)
  | .hasNext => (.more !ts.isEmpty, ts)

end Lox

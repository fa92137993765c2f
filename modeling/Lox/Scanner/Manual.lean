/-
A scanner driven by hand, one operation at a time.

Beside the running scan, which delivers token after token and then is over
for good, a host may look ahead, move on, skip, read single events or scan
the rest at once; all of it works on one position in one source. A host may
also ask for the class of a text; texts are compared as wholes, so a class
holds what lies between its ends in the order of texts.

The position is an integer, because a host may move it anywhere. Past the
end there is nothing but the end. A position below zero is counted from the
end of the source: reading starts that far before the end and, when it gets
there, goes on at the start. Positions further back than the source is long
have nothing to read. What is cut out between two positions lies between
their places in the source, so a token that was read across the end has
another text than the characters it was read from, and perhaps an empty
one; a number may even fail to be one.
-/
import Lox.ParseFailure
import Lox.Scanner
import Lox.Text.Index

namespace Lox

-- ====================================================== classes of texts

/-- Whether a text lies between two characters in the order of texts: it
starts with a character between them, and does not go on after the last
one. -/
def liesBetween (first last : Char) : List Char → Bool
  | [] => false
  | c :: rest => first ≤ c && c ≤ last && (rest.isEmpty || c != last)

namespace Scanner

/-- The texts among the digits. -/
def isDigitText (cs : List Char) : Bool :=
  liesBetween '0' '9' cs

/-- The texts among the characters that a word starts with. -/
def isWordStartText (cs : List Char) : Bool :=
  decide (cs = ['_']) || liesBetween 'a' 'z' cs || liesBetween 'A' 'Z' cs

/-- The texts among the characters that a word goes on with. -/
def isWordCharText (cs : List Char) : Bool :=
  isWordStartText cs || isDigitText cs

end Scanner

-- ============================================================ the scanner

/-- A source with the position and line reached in it, and whether the
running scan is over. -/
structure ManualScanner where
  source : List Char
  pos : Int := 0
  line : Nat := 1
  isOver : Bool := false
deriving Repr

/-- Why an operation can fail. -/
inductive ManualFault where
  /-- There is no character so far before the start of the source. -/
  | index (fault : Text.IndexFault)
  /-- The text of a number that was read across the end is not a number. -/
  | notNumeral (lexeme : String)
deriving DecidableEq, Repr

def ManualFault.message : ManualFault → String
  | .index fault => fault.message "string"
  | .notNumeral lexeme => (ParseFailure.notNumeral lexeme).message

/-- An event whose offsets are distances from a base. -/
structure Placed where
  base : Int
  event : Event
deriving Repr

namespace ManualScanner

def ofSource (source : String) : ManualScanner :=
  { source := source.toList }

-- ============================================================== positions

def length (m : ManualScanner) : Int :=
  m.source.length

/-- The character at a distance from the position; past the end it is
NUL. -/
def peek (m : ManualScanner) (distance : Int) : Except ManualFault Char :=
  if m.length ≤ m.pos + distance then .ok '\x00'
  else (Text.atIndex m.source (m.pos + distance)).mapError .index

/-- The characters that reading from the position meets, up to the end of
the source. Reading fails where there is no first one to look at. -/
def ahead (m : ManualScanner) : Except ManualFault (List Char) :=
  match m.peek 0 with
  | .error fault => .error fault
  | .ok _ =>
      let rest := m.source.drop (Text.place m.source.length m.pos)
      .ok (if m.pos < 0 then rest ++ m.source else rest)

/-- What lies between the position and the one at a distance from it, and
the scanner there. -/
def advance (m : ManualScanner) (distance : Int) : String × ManualScanner :=
  (String.ofList (Text.cut m.source m.pos (m.pos + distance)), { m with pos := m.pos + distance })

-- =============================================================== skipping

/-- The scanner after what a plain scanner, started at the position, has
passed over. -/
def after (m : ManualScanner) (s : Scanner) : ManualScanner :=
  { m with pos := m.pos + s.pos, line := s.line }

/-- Move past what a plain scanner skips. -/
def skip (m : ManualScanner) (f : Scanner → Scanner) : Except ManualFault ManualScanner :=
  match m.ahead with
  | .error fault => .error fault
  | .ok rest => .ok (m.after (f { rest, line := m.line }))

def skipTrivia (m : ManualScanner) : Except ManualFault ManualScanner :=
  m.skip Scanner.skipTrivia

def skipComment (m : ManualScanner) : Except ManualFault ManualScanner :=
  m.skip Scanner.skipComment

-- ================================================================= events

/-- The characters that an event at the position can be read from. Strings,
numbers and words are read across the end, other tokens are not. -/
def readable (m : ManualScanner) (rest : List Char) : List Char :=
  match rest with
  | [] => []
  | c :: _ =>
      if 0 ≤ m.pos || c = '"' || Scanner.isDigit c || Scanner.isWordStart c then rest
      else rest.take (-m.pos).toNat

/-- A token from before the start of the source, with the text that lies
between its ends. -/
def withCut (m : ManualScanner) (t : Token) : Except ManualFault Token :=
  let text := Text.cut m.source m.pos (m.pos + t.stop)
  let lexeme := String.ofList text
  match t.kind with
  | .string => .ok { t with lexeme, literal := some (String.ofList (text.drop 1).dropLast) }
  | .number =>
      match Double.ofText? lexeme with
      | some x => .ok { t with lexeme, literal := some x.literalText }
      | none => .error (.notNumeral lexeme)
  | kind =>
      if kind = .identifier || kind.word?.isSome then .ok { t with lexeme, kind := .ofWord lexeme }
      else .ok t

/-- An error from before the start of the source, with the character that
lies between its ends. -/
def withCutCharacter (m : ManualScanner) (e : LexError) : LexError :=
  match e.fault with
  | .unexpectedCharacter _ =>
      { e with fault := .unexpectedCharacter (Text.cut m.source m.pos (m.pos + 1)).head? }
  | .unterminatedString => e

/-- An event that was read at the position, with its own text. -/
def placed (m : ManualScanner) (event : Event) : Except ManualFault Placed :=
  if 0 ≤ m.pos then .ok ⟨m.pos, event⟩
  else match event with
    | .token t => (m.withCut t).map fun t => ⟨m.pos, .token t⟩
    | .error e => .ok ⟨m.pos, .error (m.withCutCharacter e)⟩

/-- A single event at the position. -/
def scanToken (m : ManualScanner) : Except ManualFault Placed × ManualScanner :=
  match m.ahead with
  | .error fault => (.error fault, m)
  | .ok rest =>
      let r := ({ rest := m.readable rest, line := m.line } : Scanner).scanToken
      (m.placed r.1, m.after r.2)

/-- What one turn of a scan comes to. -/
inductive Turn where
  | finished (endToken : Placed) (m : ManualScanner)
  | failed (fault : ManualFault) (m : ManualScanner)
  | more (event : Placed) (m : ManualScanner)

/-- One turn of a scan: past blanks and comments, then an event, or the end
token at the end of the source. -/
def turn (m : ManualScanner) : Turn :=
  match m.skipTrivia with
  | .error fault => .failed fault m
  | .ok m =>
      if m.length ≤ m.pos then
        .finished ⟨m.pos, .token ({ rest := [], line := m.line } : Scanner).endToken⟩ m
      else
        match m.scanToken with
        | (.error fault, m) => .failed fault m
        | (.ok event, m) => .more event m

-- =============================================================== progress

/-- How far the position is from the end. -/
def remaining (m : ManualScanner) : Nat :=
  (m.length - m.pos).toNat

theorem le_pos_of_skipTrivia {m m' : ManualScanner} (h : m.skipTrivia = .ok m') :
    m.pos ≤ m'.pos ∧ m'.length = m.length := by
  unfold skipTrivia skip at h
  split at h
  · cases h
  · cases h
    exact ⟨by simp only [after]; omega, rfl⟩

theorem lt_pos_of_scanToken {m m' : ManualScanner} {event : Placed}
    (h : m.scanToken = (.ok event, m')) : m.pos < m'.pos ∧ m'.length = m.length := by
  unfold scanToken at h
  split at h
  · cases h
  · next rest _ =>
      have hlt := Scanner.pos_lt_pos_scanToken { rest := m.readable rest, line := m.line }
      have hm := (Prod.mk.inj h).2
      subst hm
      exact ⟨by simp only [after]; omega, rfl⟩

/-- A turn that does not end the scan comes nearer to the end. -/
theorem remaining_lt_of_turn {m m' : ManualScanner} {event : Placed}
    (h : m.turn = .more event m') : m'.remaining < m.remaining := by
  unfold turn at h
  split at h
  · cases h
  · next skipped hskip =>
      have ⟨hle, hlen⟩ := le_pos_of_skipTrivia hskip
      split at h
      · cases h
      · split at h
        · cases h
        · next hscan =>
            cases h
            have ⟨hlt, hlen'⟩ := lt_pos_of_scanToken hscan
            unfold remaining
            omega

-- =============================================================== scanning

/-- The events from the position on: the errors before the next token, and
that token or what failed; with the scanner after it. -/
def tokenFrom (m : ManualScanner) : List Placed × Except ManualFault Placed × ManualScanner :=
  match _h : m.turn with
  | .finished endToken m' => ([], .ok endToken, { m' with isOver := true })
  | .failed fault m' => ([], .error fault, { m' with isOver := true })
  | .more event m' =>
      match event.event with
      | .token _ => ([], .ok event, m')
      | .error _ =>
          let (errors, r, after) := tokenFrom m'
          (event :: errors, r, after)
termination_by m.remaining
decreasing_by exact remaining_lt_of_turn _h

/-- The next token of the running scan with the errors before it; no token
once the scan is over, because it has delivered the end token or failed. -/
def nextToken (m : ManualScanner) :
    List Placed × Option (Except ManualFault Placed) × ManualScanner :=
  if m.isOver then ([], none, m)
  else
    let (errors, r, m') := m.tokenFrom
    (errors, some r, m')

/-- All events from the position to the end of the source, and what failed
on the way if something did. It is a scan of its own and leaves the running
one where it is. -/
def scanAll (m : ManualScanner) : List Placed × Option ManualFault × ManualScanner :=
  match _h : m.turn with
  | .finished endToken m' => ([endToken], none, m')
  | .failed fault m' => ([], some fault, m')
  | .more event m' =>
      let (events, fault, after) := scanAll m'
      (event :: events, fault, after)
termination_by m.remaining
decreasing_by exact remaining_lt_of_turn _h

end ManualScanner

end Lox

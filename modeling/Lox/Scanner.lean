/-
The scanner: source text to a sequence of tokens and lexical errors.

A scanner is what is left of the source together with the offset and line
reached. Scanning is one loop: pass over blanks and comments, then read one
event, a token or an error, until the source is used up, where the last
event is the end token. Errors are events among the tokens, so the order in
which a reader of the sequence meets them is part of the result.

How far a token reaches is decided by the pure length functions on the rest
of the source (`triviaLength`, `numberLength`, `wordLength`, `symbol?`,
`stringLength?`); everything else is bookkeeping of offsets and lines.
-/
import Lox.Token
import Lox.Double.Numeral
import Lox.Double.Text

namespace Lox

/-- The rest of a source, and the offset and line of its first character. -/
structure Scanner where
  rest : List Char
  pos : Nat := 0
  line : Nat := 1
deriving DecidableEq, Repr, Inhabited

/-- What scanning produces, in source order. -/
inductive Event where
  | token (t : Token)
  | error (e : LexError)
deriving DecidableEq, Repr

namespace Event

def token? : Event → Option Token
  | .token t => some t
  | .error _ => none

def error? : Event → Option LexError
  | .token _ => none
  | .error e => some e

end Event

namespace Scanner

-- ===================================================== character classes

/-- The ASCII digits. -/
def isDigit (c : Char) : Bool :=
  Double.isDigit c

/-- The characters a word starts with: ASCII letters and the underscore. -/
def isWordStart (c : Char) : Bool :=
  c = '_' || ('a' ≤ c && c ≤ 'z') || ('A' ≤ c && c ≤ 'Z')

/-- The characters a word goes on with. -/
def isWordChar (c : Char) : Bool :=
  isWordStart c || isDigit c

-- =============================================================== lengths

/-- How many characters of blanks and comments come first. A comment starts
with two slashes and ends before the next line feed; the flag tells whether
one is open. -/
def triviaLength : Bool → List Char → Nat
  | _, [] => 0
  | true, c :: rest => 1 + triviaLength (c != '\n') rest
  | false, c :: rest =>
      if Text.isBlank c then 1 + triviaLength false rest
      else if c = '/' && rest.head? == some '/' then 1 + triviaLength true rest
      else 0

/-- How many characters of a string there are up to its closing quote, seen
from after the opening one; none if the quote is missing. -/
def stringLength? (rest : List Char) : Option Nat :=
  rest.findIdx? (· == '"')

/-- The length of the number at the front: digits, and a point with digits
after it if there are such. -/
def numberLength (cs : List Char) : Nat :=
  let whole := (cs.takeWhile isDigit).length
  match cs.drop whole with
  | '.' :: rest =>
      let fraction := (rest.takeWhile isDigit).length
      if fraction = 0 then whole else whole + 1 + fraction
  | _ => whole

/-- The length of the word at the front. -/
def wordLength (cs : List Char) : Nat :=
  (cs.takeWhile isWordChar).length

/-- The operator or punctuation mark at the front, with its length; a mark
of two characters goes before the mark that is its first half. -/
def symbol? : List Char → Option (Kind × Nat)
  | '=' :: '=' :: _ => some (.equalEqual, 2)
  | '!' :: '=' :: _ => some (.bangEqual, 2)
  | '<' :: '=' :: _ => some (.lessEqual, 2)
  | '>' :: '=' :: _ => some (.greaterEqual, 2)
  | '=' :: _ => some (.equal, 1)
  | '!' :: _ => some (.bang, 1)
  | '<' :: _ => some (.less, 1)
  | '>' :: _ => some (.greater, 1)
  | '(' :: _ => some (.leftParen, 1)
  | ')' :: _ => some (.rightParen, 1)
  | '{' :: _ => some (.leftBrace, 1)
  | '}' :: _ => some (.rightBrace, 1)
  | ',' :: _ => some (.comma, 1)
  | '.' :: _ => some (.dot, 1)
  | '-' :: _ => some (.minus, 1)
  | '+' :: _ => some (.plus, 1)
  | ';' :: _ => some (.semicolon, 1)
  | '*' :: _ => some (.star, 1)
  | '/' :: _ => some (.slash, 1)
  | _ => none

-- ================================================================ moving

/-- A scanner at the start of a source. -/
def ofSource (source : String) : Scanner :=
  { rest := source.toList }

/-- The scanner some characters further on, on the same line. -/
def drop (s : Scanner) (n : Nat) : Scanner :=
  { s with rest := s.rest.drop n, pos := s.pos + n }

/-- The scanner some characters further on, with the line feeds passed over
counted. -/
def pass (s : Scanner) (n : Nat) : Scanner :=
  { s.drop n with line := s.line + (s.rest.take n).count '\n' }

/-- Past the blanks and comments at the front. -/
def skipTrivia (s : Scanner) : Scanner :=
  s.pass (triviaLength false s.rest)

/-- To the end of the line, as if inside a comment. -/
def skipComment (s : Scanner) : Scanner :=
  s.drop (s.rest.takeWhile (· != '\n')).length

-- ================================================================ events

/-- The token made of the next characters, on the current line. -/
def tokenOf (s : Scanner) (kind : Kind) (length : Nat) (literal : Option String) : Event :=
  .token
    { kind, literal, lexeme := String.ofList (s.rest.take length),
      start := s.pos, stop := s.pos + length, line := s.line }

/-- The end of the source as a token of span one. -/
def endToken (s : Scanner) : Token :=
  { kind := .eof, lexeme := "", start := s.pos, stop := s.pos + 1, line := s.line }

/-- One event from the characters at the front, which should not be trivia,
and the scanner after it. A string without its closing quote takes the rest
of the source; a character that starts no token is passed over alone. -/
def scanToken (s : Scanner) : Event × Scanner :=
  match s.rest with
  | [] => (.error ⟨.unexpectedCharacter none, s.pos, s.line⟩, s.drop 1)
  | c :: rest =>
      if c = '"' then
        match stringLength? rest with
        | some n =>
            (s.tokenOf .string (n + 2) (some (String.ofList (rest.take n))), s.pass (n + 2))
        | none =>
            let atEnd := s.pass s.rest.length
            (.error ⟨.unterminatedString, atEnd.pos, atEnd.line⟩, atEnd)
      else if isDigit c then
        let n := numberLength s.rest
        let text := String.ofList (s.rest.take n)
        (s.tokenOf .number n ((Double.ofText? text).map Double.literalText), s.drop n)
      else if isWordStart c then
        let n := wordLength s.rest
        (s.tokenOf (.ofWord (String.ofList (s.rest.take n))) n none, s.drop n)
      else
        match symbol? s.rest with
        | some (kind, n) => (s.tokenOf kind n none, s.drop n)
        | none => (.error ⟨.unexpectedCharacter (some c), s.pos, s.line⟩, s.drop 1)

-- ============================================================== progress

@[simp]
theorem rest_drop (s : Scanner) (n : Nat) : (s.drop n).rest = s.rest.drop n := rfl

/-- Passing characters leaves the same text as dropping them. -/
@[simp]
theorem rest_pass (s : Scanner) (n : Nat) : (s.pass n).rest = s.rest.drop n := rfl

@[simp]
theorem pos_drop (s : Scanner) (n : Nat) : (s.drop n).pos = s.pos + n := rfl

@[simp]
theorem pos_pass (s : Scanner) (n : Nat) : (s.pass n).pos = s.pos + n := rfl

/-- A number has at least the digit it starts with. -/
theorem numberLength_pos {c : Char} {rest : List Char} (h : isDigit c = true) :
    0 < numberLength (c :: rest) := by
  unfold numberLength
  simp only [List.takeWhile_cons, h, if_true, List.length_cons]
  split
  · split <;> omega
  · omega

/-- A word has at least the character it starts with. -/
theorem wordLength_pos {c : Char} {rest : List Char} (h : isWordStart c = true) :
    0 < wordLength (c :: rest) := by
  simp [wordLength, isWordChar, h]

theorem symbol?_pos {cs : List Char} {kind : Kind} {n : Nat} (h : symbol? cs = some (kind, n)) :
    0 < n := by
  unfold symbol? at h
  split at h <;> simp_all <;> omega

/-- Reading an event uses up at least one character. -/
theorem length_scanToken_lt {s : Scanner} (h : s.rest ≠ []) :
    (s.scanToken).2.rest.length < s.rest.length := by
  cases hs : s.rest with
  | nil => exact absurd hs h
  | cons c rest =>
      unfold scanToken
      rw [hs]
      dsimp only
      split
      · split <;> simp only [rest_pass, List.length_drop, hs, List.length_cons] <;> omega
      · split
        · next hd =>
          have : 0 < numberLength (c :: rest) := numberLength_pos hd
          simp only [rest_drop, List.length_drop, hs, List.length_cons]
          omega
        · split
          · next hw =>
            have : 0 < wordLength (c :: rest) := wordLength_pos hw
            simp only [rest_drop, List.length_drop, hs, List.length_cons]
            omega
          · split
            · next hk =>
              have := symbol?_pos hk
              simp only [rest_drop, List.length_drop, hs, List.length_cons]
              omega
            · simp [hs]

/-- Reading an event moves the position on, also at the end of the
source. -/
theorem pos_lt_pos_scanToken (s : Scanner) : s.pos < (s.scanToken).2.pos := by
  unfold scanToken
  split
  · exact Nat.lt_succ_self _
  · next c rest hs =>
      split
      · split <;> simp only [pos_pass, hs, List.length_cons] <;> omega
      · split
        · next hd =>
          have : 0 < numberLength (c :: rest) := numberLength_pos hd
          simp only [pos_drop, hs]
          omega
        · split
          · next hw =>
            have : 0 < wordLength (c :: rest) := wordLength_pos hw
            simp only [pos_drop, hs]
            omega
          · split
            · next hk =>
              have := symbol?_pos hk
              simp only [pos_drop]
              omega
            · exact Nat.lt_succ_self _

/-- Skipping blanks and comments leaves no more text than there was. -/
theorem length_skipTrivia_le (s : Scanner) : s.skipTrivia.rest.length ≤ s.rest.length := by
  simp [skipTrivia]

-- ============================================================== the scan

/-- All events of a source, the last of them its end token. -/
def events (s : Scanner) : List Event :=
  let t := s.skipTrivia
  if _h : t.rest = [] then [.token t.endToken]
  else (t.scanToken).1 :: events (t.scanToken).2
termination_by s.rest.length
decreasing_by
  exact Nat.lt_of_lt_of_le (length_scanToken_lt _h) (length_skipTrivia_le s)

end Scanner

-- ========================================================= whole sources

/-- The events of a source text. -/
def scan (source : String) : List Event :=
  (Scanner.ofSource source).events

/-- The tokens among some events. -/
def tokensOf (events : List Event) : List Token :=
  events.filterMap Event.token?

/-- The lexical errors among some events. -/
def errorsOf (events : List Event) : List LexError :=
  events.filterMap Event.error?

@[simp]
theorem tokensOf_nil : tokensOf [] = [] := rfl

@[simp]
theorem tokensOf_token (t : Token) (events : List Event) :
    tokensOf (.token t :: events) = t :: tokensOf events := rfl

@[simp]
theorem tokensOf_error (e : LexError) (events : List Event) :
    tokensOf (.error e :: events) = tokensOf events := rfl

/-- Tokens of events come in the order of the events. -/
@[simp]
theorem tokensOf_append (xs ys : List Event) : tokensOf (xs ++ ys) = tokensOf xs ++ tokensOf ys :=
  List.filterMap_append

@[simp]
theorem errorsOf_nil : errorsOf [] = [] := rfl

@[simp]
theorem errorsOf_token (t : Token) (events : List Event) :
    errorsOf (.token t :: events) = errorsOf events := rfl

@[simp]
theorem errorsOf_error (e : LexError) (events : List Event) :
    errorsOf (.error e :: events) = e :: errorsOf events := rfl

@[simp]
theorem errorsOf_append (xs ys : List Event) : errorsOf (xs ++ ys) = errorsOf xs ++ errorsOf ys :=
  List.filterMap_append

/-- The tokens of a source text, the end token included. -/
def tokenize (source : String) : List Token :=
  tokensOf (scan source)

end Lox

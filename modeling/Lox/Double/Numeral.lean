/-
Reading a number from text.

The scanner's number literals are digits, perhaps with a point and more
digits. A token that was not produced by the scanner may carry any other
text, and the reader is generous with it: white space around it, a sign, a
point at either end, an exponent, single underscores between digits, digits of any
script, and the names of infinity and not-a-number are all understood.
-/
import Lox.Double.Decimal
import Lox.Text.Blank
import Lox.Text.Digit

namespace Lox.Double

-- ====================================================== preparing the text

/-- The characters without the white space at either end. -/
def unpadded (cs : List Char) : List Char :=
  ((cs.dropWhile Text.isSpace).reverse.dropWhile Text.isSpace).reverse

/-- The ASCII digits. -/
def isDigit (c : Char) : Bool :=
  '0' ≤ c && c ≤ '9'

/-- A decimal digit of any script as its ASCII digit, and any other
character unchanged. -/
def toAsciiDigit (c : Char) : Char :=
  match Text.decimalDigit? c with
  | some value => Char.ofNat ('0'.toNat + value)
  | none => c

/-- The characters without the underscores that stand between two digits.
The flag tells whether the character before was a digit. -/
def dropJoins : Bool → List Char → List Char
  | _, [] => []
  | true, '_' :: c :: rest =>
      if isDigit c then c :: dropJoins true rest else '_' :: dropJoins false (c :: rest)
  | _, c :: rest => c :: dropJoins (isDigit c) rest

/-- A leading sign, as whether it is a minus, and what follows it. -/
def takeSign : List Char → Bool × List Char
  | '-' :: rest => (true, rest)
  | '+' :: rest => (false, rest)
  | rest => (false, rest)

-- ============================================================ the grammar

/-- The number that ASCII digits write. -/
def digitsValue (cs : List Char) : Nat :=
  cs.foldl (fun value c => 10 * value + (c.toNat - '0'.toNat)) 0

/-- The exponent part at the end of a numeral: nothing, or a mark, a sign
and at least one digit. -/
def exponent? : List Char → Option Int
  | [] => some 0
  | c :: rest =>
      let (negative, digits) := takeSign rest
      if (c = 'e' || c = 'E') && !digits.isEmpty && digits.all isDigit then
        let value := digitsValue digits
        some (if negative then -(value : Int) else value)
      else none

/-- The decimal of an unsigned numeral: digits, perhaps a point and digits,
at least one digit in all, then perhaps an exponent. An exponent beyond four
hundred, counted from the first digit, only matters by its sign. -/
def numeral? (cs : List Char) : Option Decimal :=
  let whole := cs.takeWhile isDigit
  let afterWhole := cs.dropWhile isDigit
  let (fraction, tail) := match afterWhole with
    | '.' :: rest => (rest.takeWhile isDigit, rest.dropWhile isDigit)
    | rest => ([], rest)
  let digits := whole ++ fraction
  if digits.isEmpty then none
  else
    (exponent? tail).map fun e =>
      let limit : Int := digits.length + 400
      ⟨digitsValue digits, max (-limit) (min limit e) - fraction.length⟩

/-- The double that a text denotes, if it denotes one. -/
def ofText? (s : String) : Option Double :=
  let cs := unpadded (s.toList.map toAsciiDigit)
  let (negative, body) := takeSign (dropJoins false cs)
  match String.ofList (body.map Char.toLower) with
  | "inf" | "infinity" => some (infinity negative)
  | "nan" => some nan
  | _ => (numeral? body).map (Decimal.toDouble negative)

end Lox.Double

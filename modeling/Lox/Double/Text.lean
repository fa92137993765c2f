/-
The three texts of a real number.

- The literal text stands in tokens and parsed expressions: shortest digits,
  positional from one thousandth up to ten million, scientific outside, and
  always with a digit after the point.
- The display text is what programs print: at most ten places, rounded half
  away from zero, never an exponent, no trailing zeros.
- The message text stands in error messages: a whole number by its digits,
  any other number by its shortest digits.
-/
import Lox.Double.Decimal

namespace Lox.Double

-- ============================================================== layouts

/-- Decimal digits with a point set among them or outside them, with at
least one digit on each side. -/
def positional (digits : List Char) (point : Int) : List Char :=
  if point ≤ 0 then
    ['0', '.'] ++ List.replicate (-point).toNat '0' ++ digits
  else
    let whole := point.toNat
    let fraction := digits.drop whole
    digits.take whole ++ List.replicate (whole - digits.length) '0' ++
      '.' :: (if fraction.isEmpty then ['0'] else fraction)

/-- The first digit, the others after a point if there are any, and what to
write there if there are none. -/
def leadingDigit (digits : List Char) (ifAlone : List Char) : List Char :=
  digits.take 1 ++
    if (digits.drop 1).isEmpty then ifAlone else '.' :: digits.drop 1

/-- A minus sign before a text if asked for. -/
def signed (negative : Bool) (cs : List Char) : String :=
  String.ofList (if negative then '-' :: cs else cs)

/-- The digits of a whole number with its sign. -/
def wholeText (n : Int) : String :=
  signed (decide (n < 0)) (Nat.toDigits 10 n.natAbs)

-- ========================================================== literal text

/-- The double nearest to one thousandth: the least magnitude that literal
text writes positionally. -/
def plainLow : Double := ⟨0x3F50624DD2F1A9FC⟩

/-- Ten million: the least magnitude above those that literal text writes
positionally. -/
def plainHigh : Double := ⟨0x416312D000000000⟩

/-- The text of infinity, spelled out. -/
def infinityText (negative : Bool) : String :=
  signed negative "Infinity".toList

/-- The text of a number literal. -/
def literalText (x : Double) : String :=
  if x.isNaN then "NaN"
  else if x.isInfinite then infinityText x.isNegative
  else if x.isZero then signed x.isNegative ['0', '.', '0']
  else
    let d := x.shortest
    if plainLow.magnitude ≤ x.magnitude && x.magnitude < plainHigh.magnitude then
      signed x.isNegative (positional d.digits d.point)
    else
      signed x.isNegative
        (leadingDigit d.digits ['.', '0'] ++ 'E' :: (wholeText (d.point - 1)).toList)

-- ========================================================== display text

/-- How many places the display text keeps. -/
def displayPlaces : Nat := 10

/-- One, counted in the last displayed place. -/
def displayOne : Nat := Nat.pow 10 displayPlaces

/-- The magnitude of a finite double in the last displayed place, rounded to
a whole number with halves going up. -/
def displayUnits (x : Double) : Nat :=
  (2 * (x.units * displayOne) + one) / (2 * one)

/-- The places after the point, without the zeros at the end. -/
def displayFraction (n : Nat) : List Char :=
  let digits := Nat.toDigits 10 n
  ((List.replicate (displayPlaces - digits.length) '0' ++ digits).reverse.dropWhile
    (· == '0')).reverse

/-- The text that a program prints for a number. A value that rounds to
nothing is `0` whatever its sign. -/
def displayText (x : Double) : String :=
  if x.isNaN then "NaN"
  else if x.isInfinite then infinityText x.isNegative
  else
    let n := x.displayUnits
    if n = 0 then "0"
    else
      let fraction := displayFraction (n % displayOne)
      signed x.isNegative
        (Nat.toDigits 10 (n / displayOne) ++
          if fraction.isEmpty then [] else '.' :: fraction)

-- ========================================================== message text

/-- An exponent with its sign and at least two digits. -/
def paddedExponent (e : Int) : List Char :=
  let digits := Nat.toDigits 10 e.natAbs
  (if e < 0 then '-' else '+') :: (List.replicate (2 - digits.length) '0' ++ digits)

/-- The text of a number in an error message. Shortest digits are positional
when the first of them stands for a power of ten from -4 to 15. -/
def messageText (x : Double) : String :=
  if x.isNaN then "nan"
  else if x.isInfinite then signed x.isNegative "inf".toList
  else if x.isWhole then wholeText (x.value / one)
  else
    let d := x.shortest
    let e := d.point - 1
    if -4 ≤ e && e < 16 then signed x.isNegative (positional d.digits d.point)
    else signed x.isNegative (leadingDigit d.digits [] ++ 'e' :: paddedExponent e)

end Lox.Double

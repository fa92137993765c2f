/-
Decimal numbers, and the shortest one that reads back as a given double.

A decimal is a whole coefficient times a power of ten; reading it rounds its
exact value to the nearest double. The shortest decimal of a double is
searched by its number of digits: on the grid of decimals with one digit,
then two, and so on, the two neighbours of the value are read back, and the
first grid where one of them gives the double again decides. Should both,
the nearer is taken, and of two equally near the one with an even last
digit.
-/
import Lox.Double

namespace Lox

/-- The number `coefficient * 10 ^ exponent`. -/
structure Decimal where
  coefficient : Nat
  exponent : Int
deriving DecidableEq, Repr, Inhabited

namespace Decimal

-- ============================================================== reading

/-- The numerator of a decimal's value in units. -/
def numerator (d : Decimal) : Nat :=
  d.coefficient * Double.one * Nat.pow 10 d.exponent.toNat

/-- The denominator of a decimal's value in units. -/
def denominator (d : Decimal) : Nat :=
  Nat.pow 10 (-d.exponent).toNat

/-- The double nearest to a decimal, under the given sign. -/
def toDouble (negative : Bool) (d : Decimal) : Double :=
  Double.round negative d.numerator d.denominator

/-- Whether reading a decimal under the sign of a double gives the double. -/
def readsAs (d : Decimal) (x : Double) : Bool :=
  d.toDouble x.isNegative == x

-- =============================================================== digits

/-- The digits of the coefficient without the zeros at the end. -/
def digits (d : Decimal) : List Char :=
  ((Nat.toDigits 10 d.coefficient).reverse.dropWhile (· == '0')).reverse

/-- How many digits stand before the decimal point; zero or less if the
first digit comes after it. -/
def point (d : Decimal) : Int :=
  (Nat.toDigits 10 d.coefficient).length + d.exponent

end Decimal

namespace Double

-- ===================================================== the shortest text

/-- The power of ten of the first digit of a positive value: scaling by
10 ^ 330 brings every positive double above one, and then the digits before
the point are counted. -/
def leadingExponent (x : Double) : Int :=
  (Nat.toDigits 10 (x.units * Nat.pow 10 330 / one)).length - 331

/-- The power of ten of the last digit, if there are so many digits. -/
def gridExponent (x : Double) (count : Nat) : Int :=
  x.leadingExponent - count + 1

/-- The number of last digits in the magnitude of a double, as a quotient. -/
def gridNumerator (x : Double) (count : Nat) : Nat :=
  x.units * Nat.pow 10 (-x.gridExponent count).toNat

def gridDenominator (x : Double) (count : Nat) : Nat :=
  one * Nat.pow 10 (x.gridExponent count).toNat

/-- The magnitude of a double in the last digit, rounded down. -/
def gridFloor (x : Double) (count : Nat) : Nat :=
  x.gridNumerator count / x.gridDenominator count

/-- The magnitude of a double in the last digit, rounded to the nearest. -/
def gridNearest (x : Double) (count : Nat) : Nat :=
  nearestEven (x.gridNumerator count) (x.gridDenominator count)

/-- A decimal counted in the last digit. -/
def onGrid (x : Double) (count n : Nat) : Decimal :=
  ⟨n, x.gridExponent count⟩

/-- One of two neighbours, or the nearer of them, by whether each of the two
reads back. -/
def chosen? (below above nearer : Decimal) : (readsBelow readsAbove : Bool) → Option Decimal
  | true, true => some nearer
  | true, false => some below
  | false, true => some above
  | false, false => none

/-- The decimal with a given number of digits that reads back as the
magnitude of a double, if the grid of such decimals has one. -/
def withDigits? (x : Double) (count : Nat) : Option Decimal :=
  let below := x.onGrid count (x.gridFloor count)
  let above := x.onGrid count (x.gridFloor count + 1)
  chosen? below above (x.onGrid count (x.gridNearest count)) (below.readsAs x) (above.readsAs x)

/-- The decimal with the fewest digits that reads back as a finite double's
magnitude, and of those the nearest. Seventeen digits are always enough;
the exact expansion stands behind them so that the answer reads back by
construction. -/
def shortest (x : Double) : Decimal :=
  ((List.range 17).findSome? fun n => x.withDigits? (n + 1)).getD
    ⟨x.units * Nat.pow 5 unitExponent, -unitExponent⟩

end Double

end Lox

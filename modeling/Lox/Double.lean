/-
Real numbers as IEEE binary64 words, with exact arithmetic.

Every finite double is a whole multiple of 2 ^ -1074, so a finite value is
an integer count of that unit (`Double.units`). Arithmetic is then done
exactly on integers and the result rounded once, to nearest with ties to
the even significand (`Double.round`). Nothing here leans on machine
floating point: the whole of it can be unfolded in a proof.

Bits are kept as they come, NaN payloads included; `Double.key` identifies
all NaNs and tells the two zeros apart, which is the language's equality.
-/

namespace Lox

/-- A binary64 number, given by its bits: sign, eleven exponent bits, and
fifty-two fraction bits. -/
structure Double where
  bits : UInt64
deriving DecidableEq, Repr, Inhabited

namespace Double

-- ============================================================ the fields

/-- The weight of the sign bit. -/
def signWeight : Nat := 0x8000000000000000

/-- How many fractions there are: the weight of the lowest exponent bit. -/
def fractionCount : Nat := 0x10000000000000

/-- The bits without the sign, as a number. It grows with the magnitude. -/
def magnitude (x : Double) : Nat :=
  x.bits.toNat % signWeight

/-- The sign bit. -/
def isNegative (x : Double) : Bool :=
  signWeight ≤ x.bits.toNat

/-- The magnitude bits of infinity: all exponent bits set, no fraction. -/
def infinityBits : Nat := 0x7FF * fractionCount

def isNaN (x : Double) : Bool :=
  infinityBits < x.magnitude

def isInfinite (x : Double) : Bool :=
  x.magnitude == infinityBits

def isFinite (x : Double) : Bool :=
  x.magnitude < infinityBits

/-- Either zero. -/
def isZero (x : Double) : Bool :=
  x.magnitude == 0

/-- The double with the given sign and magnitude bits. -/
def ofMagnitude (negative : Bool) (magnitude : Nat) : Double :=
  ⟨UInt64.ofNat (magnitude + if negative then signWeight else 0)⟩

/-- The quiet NaN without payload, which stands for all NaNs. -/
def nan : Double := ⟨0x7FF8000000000000⟩

/-- Infinity of the given sign. -/
def infinity (negative : Bool) : Double := ofMagnitude negative infinityBits

/-- Zero of the given sign. -/
def zero (negative : Bool) : Double := ofMagnitude negative 0

/-- What equality compares: the bits, with every NaN brought to one. -/
def key (x : Double) : UInt64 :=
  if x.isNaN then nan.bits else x.bits

-- ============================================================= the value

/-- The exponent of two of the unit that finite values are counted in,
without its sign. -/
def unitExponent : Nat := 1074

/-- One, in units. -/
def one : Nat := Nat.pow 2 unitExponent

/-- The magnitude of a finite double as a count of units: the fraction
alone for a subnormal number, else the fraction below its leading one,
shifted by the exponent. -/
def units (x : Double) : Nat :=
  let exponent := x.magnitude / fractionCount
  let fraction := x.magnitude % fractionCount
  if exponent = 0 then fraction else (fractionCount + fraction) * Nat.pow 2 (exponent - 1)

/-- The value of a finite double in units, with its sign. -/
def value (x : Double) : Int :=
  if x.isNegative then -(x.units : Int) else x.units

/-- Whether a finite double is a whole number. -/
def isWhole (x : Double) : Bool :=
  x.isFinite && x.units % one == 0

-- ============================================================== rounding

/-- The whole number nearest to a quotient, the even one of two that are
equally near. -/
def nearestEven (numerator denominator : Nat) : Nat :=
  let quotient := numerator / denominator
  let rest := numerator % denominator
  if 2 * rest < denominator then quotient
  else if denominator < 2 * rest then quotient + 1
  else quotient + quotient % 2

/-- The double nearest to a quotient of units. The spacing of doubles there
is a power of two that leaves fifty-three significant bits; a significand
that rounds up to the next power carries into the exponent by itself,
because the bits of consecutive doubles are consecutive numbers. Beyond the
largest finite double the answer is infinite. -/
def round (negative : Bool) (numerator denominator : Nat) : Double :=
  let shift := (numerator / denominator).log2 - 52
  let significand := nearestEven numerator (denominator * Nat.pow 2 shift)
  let magnitude := shift * fractionCount + significand
  if magnitude < infinityBits then ofMagnitude negative magnitude else infinity negative

-- ============================================================ arithmetic

/-- The number with the opposite sign bit, NaN included. -/
def neg (x : Double) : Double :=
  ofMagnitude (!x.isNegative) x.magnitude

/-- The sum. Infinities of opposite signs have none, and an exact zero is
positive unless both terms are negative zeros. -/
def add (x y : Double) : Double :=
  if x.isNaN || y.isNaN then nan
  else if x.isInfinite then
    if y.isInfinite && x.isNegative != y.isNegative then nan else x
  else if y.isInfinite then y
  else
    let total := x.value + y.value
    if total = 0 then zero (x.isNegative && y.isNegative)
    else round (decide (total < 0)) total.natAbs 1

/-- The difference: the sum with the second term's sign turned. -/
def sub (x y : Double) : Double :=
  add x y.neg

/-- The product. Zero times infinity is not a number. -/
def mul (x y : Double) : Double :=
  let negative := x.isNegative != y.isNegative
  if x.isNaN || y.isNaN then nan
  else if x.isInfinite || y.isInfinite then
    if x.isZero || y.isZero then nan else infinity negative
  else round negative (x.units * y.units) one

/-- The quotient. Division by a zero gives an infinity whose sign comes from
both signs, except that zero by zero, like infinity by infinity, is not a
number. -/
def div (x y : Double) : Double :=
  let negative := x.isNegative != y.isNegative
  if x.isNaN || y.isNaN then nan
  else if x.isInfinite then
    if y.isInfinite then nan else infinity negative
  else if y.isInfinite then zero negative
  else if y.isZero then
    if x.isZero then nan else infinity negative
  else round negative (x.units * one) y.units

-- =========================================================== comparisons

/-- A number that orders doubles other than NaN as their values are
ordered, the two zeros alike. -/
def rank (x : Double) : Int :=
  if x.isNegative then -(x.magnitude : Int) else x.magnitude

/-- The order of values; nothing is below or above a NaN. -/
def lt (x y : Double) : Bool :=
  !x.isNaN && !y.isNaN && decide (x.rank < y.rank)

/-- The order of values, equality included; false if either is a NaN. -/
def le (x y : Double) : Bool :=
  !x.isNaN && !y.isNaN && decide (x.rank ≤ y.rank)

end Double

end Lox

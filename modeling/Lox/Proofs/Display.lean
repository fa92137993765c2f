/-
What is printed for a number is its value, rounded.

The value of a finite double is a rational number (`Double.toRat`). What is
displayed is this value rounded to ten places with halves away from zero
(`Double.displayed`), and the text denotes the rounded value exactly: as
digits, perhaps with a point, with nothing superfluous (`PlainDecimal`).

The exact decimal expansion of a double can have several hundred digits. It
is rounded by an arithmetic of limited precision, which has no answer if
the result has more digits than the precision allows (`Decimal.quantize?`).
The greatest double has three hundred and nine digits before the point, so a
precision of four hundred is never exceeded.
-/
import Lox.Proofs.Digits
import Lox.Proofs.Rounding
import Mathlib.Data.Sign.Basic

namespace Lox

-- ======================================================= halves go up

/-- The whole number nearest to a quotient, the greater one of two that are
equally near. -/
def halfUp (numerator denominator : Nat) : Nat :=
  (2 * numerator + denominator) / (2 * denominator)

/-- Rounding a quotient half up is the floor of the quotient and a half. -/
theorem floor_add_half (n : Nat) {d : Nat} (hd : 0 < d) :
    ⌊(n / d : ℚ) + 1 / 2⌋ = (halfUp n d : ℤ) := by
  have hpos : (0 : ℚ) < d := by exact_mod_cast hd
  have hquotient : (n / d : ℚ) + 1 / 2 = ((2 * n + d : ℕ) : ℚ) / ((2 * d : ℕ) : ℚ) := by
    push_cast
    field_simp
  rw [hquotient, Rat.floor_natCast_div_natCast]
  rfl

/-- Rounding goes at most one above a bound. -/
theorem halfUp_lt {n d bound : Nat} (hd : 0 < d) (h : n < d * bound) :
    halfUp n d < bound + 1 := by
  refine Nat.div_lt_of_lt_mul ?_
  calc 2 * n + d < 2 * (d * bound) + 2 * d := by omega
    _ = 2 * d * (bound + 1) := by ring

namespace Decimal

-- ==================================================== limited precision

/-- The number that a decimal stands for. -/
def value (d : Decimal) : ℚ :=
  d.coefficient * 10 ^ d.exponent

/-- A decimal rounded to a number of places, halves going up. There is no
answer if its coefficient has more digits than the precision. -/
def quantize? (d : Decimal) (places precision : Nat) : Option Decimal :=
  let shift := d.exponent + places
  let coefficient := halfUp (d.coefficient * 10 ^ shift.toNat) (10 ^ (-shift).toNat)
  if (Nat.toDigits 10 coefficient).length ≤ precision then some ⟨coefficient, -places⟩
  else none

/-- A power of ten with a whole exponent, as a quotient of natural numbers. -/
theorem ten_zpow (e : ℤ) : (10 : ℚ) ^ e = 10 ^ e.toNat / 10 ^ (-e).toNat := by
  rw [← zpow_natCast, ← zpow_natCast, ← zpow_sub₀ (by norm_num)]
  congr 1
  omega

/-- A decimal in units of some place, as a quotient of natural numbers. -/
theorem value_mul_pow (d : Decimal) (places : Nat) :
    d.value * 10 ^ places
      = ((d.coefficient * 10 ^ (d.exponent + places).toNat : ℕ) : ℚ)
        / ((10 ^ (-(d.exponent + places)).toNat : ℕ) : ℚ) := by
  rw [value, mul_assoc, ← zpow_natCast, ← zpow_add₀ (by norm_num), ten_zpow]
  push_cast
  ring

/-- A decimal's value in units is the quotient that is rounded when it is
read. -/
theorem numerator_div_denominator (d : Decimal) :
    (d.numerator / d.denominator : ℚ) = d.value * Double.one := by
  have hnumerator : d.numerator = d.coefficient * Double.one * 10 ^ d.exponent.toNat := rfl
  have hdenominator : d.denominator = 10 ^ (-d.exponent).toNat := rfl
  rw [value, ten_zpow, hnumerator, hdenominator]
  push_cast
  ring

/-- A decimal is quantized as it is rounded half up, if the digits fit the
precision. -/
theorem quantize?_eq_some {d : Decimal} {places precision n : Nat}
    (hprecision : 0 < precision) (hn : n < 10 ^ precision)
    (hfloor : ⌊d.value * 10 ^ places + 1 / 2⌋ = (n : ℤ)) :
    d.quantize? places precision = some ⟨n, -places⟩ := by
  rw [value_mul_pow, floor_add_half _ (Nat.pow_pos (by decide))] at hfloor
  have hcoefficient := Int.ofNat.inj hfloor
  have hdigits := (Nat.length_toDigits_le_iff (b := 10) (by decide) hprecision).2 hn
  unfold quantize?
  dsimp only
  rw [hcoefficient, if_pos hdigits]

end Decimal

namespace Double

-- ================================================================ values

/-- The value of a finite double. -/
def toRat (x : Double) : ℚ :=
  x.value / one

/-- The value of a double rounded to the displayed places, halves away from
zero. -/
def displayed (x : Double) : ℚ :=
  SignType.sign x.toRat * ⌊|x.toRat| * 10 ^ displayPlaces + 1 / 2⌋ / 10 ^ displayPlaces

variable (x : Double)

/-- A double is its units as a fraction of one, with its sign. -/
theorem toRat_eq : x.toRat = if x.isNegative then -(x.units / one : ℚ) else x.units / one := by
  unfold toRat value
  split
  · rw [Int.cast_neg, Int.cast_natCast, neg_div]
  · rw [Int.cast_natCast]

theorem abs_signed {q : ℚ} (h : 0 ≤ q) (negative : Bool) : |if negative then -q else q| = q := by
  cases negative with
  | true => exact (abs_neg q).trans (abs_of_nonneg h)
  | false => exact abs_of_nonneg h

/-- The magnitude of a double is its units over those of one. -/
theorem abs_toRat : |x.toRat| = x.units / one := by
  rw [toRat_eq]
  exact abs_signed (div_nonneg (Nat.cast_nonneg _) (Nat.cast_nonneg _)) _

/-- The magnitude in the last displayed place, rounded. -/
theorem floor_magnitude :
    ⌊|x.toRat| * 10 ^ displayPlaces + 1 / 2⌋ = (x.displayUnits : ℤ) := by
  have hscaled : |x.toRat| * 10 ^ displayPlaces = ((x.units * displayOne : ℕ) : ℚ) / one := by
    rw [abs_toRat, Nat.cast_mul, show displayOne = 10 ^ displayPlaces from rfl, Nat.cast_pow]
    push_cast
    ring
  rw [hscaled]
  exact floor_add_half _ one_pos

/-- Zero is displayed as zero. -/
theorem displayUnits_of_units (h : x.units = 0) : x.displayUnits = 0 := by
  have hfloor := floor_magnitude x
  rw [abs_toRat, h, Nat.cast_zero, zero_div, zero_mul] at hfloor
  norm_num at hfloor
  omega

/-- The number that is displayed, with its sign. -/
theorem displayed_eq :
    x.displayed
      = if x.isNegative then -(x.displayUnits / 10 ^ displayPlaces : ℚ)
        else x.displayUnits / 10 ^ displayPlaces := by
  rw [displayed, floor_magnitude, Int.cast_natCast]
  rcases Nat.eq_zero_or_pos x.units with hzero | hpos
  · rw [displayUnits_of_units x hzero, Nat.cast_zero, mul_zero, zero_div, neg_zero, ite_self]
  · have hunits : (0 : ℚ) < x.units / one :=
      div_pos (Nat.cast_pos.2 hpos) (Nat.cast_pos.2 one_pos)
    rw [toRat_eq]
    split
    · rw [sign_neg (neg_neg_of_pos hunits)]
      simp [neg_div]
    · rw [sign_pos hunits]
      simp

/-- Its magnitude, in units of the last place. -/
theorem abs_displayed : |x.displayed| = x.displayUnits / 10 ^ displayPlaces := by
  rw [displayed_eq]
  exact abs_signed (by positivity) _

theorem displayUnits_div_eq_zero :
    (x.displayUnits / 10 ^ displayPlaces : ℚ) = 0 ↔ x.displayUnits = 0 := by
  have hten : (10 : ℚ) ^ displayPlaces ≠ 0 := by positivity
  rw [div_eq_zero_iff, Nat.cast_eq_zero, or_iff_left hten]

/-- A double is displayed as zero exactly if no unit of the last place is left. -/
theorem displayed_eq_zero_iff : x.displayed = 0 ↔ x.displayUnits = 0 := by
  rw [← abs_eq_zero, abs_displayed, displayUnits_div_eq_zero]

/-- It is negative exactly if the double has a sign and something is left. -/
theorem displayed_neg_iff : x.displayed < 0 ↔ x.isNegative = true ∧ x.displayUnits ≠ 0 := by
  have hnonneg : (0 : ℚ) ≤ x.displayUnits / 10 ^ displayPlaces := by positivity
  rw [displayed_eq]
  cases x.isNegative with
  | true =>
      rw [if_pos rfl, neg_lt_zero, hnonneg.lt_iff_ne', ne_eq, displayUnits_div_eq_zero]
      exact (and_iff_right rfl).symm
  | false =>
      rw [if_neg Bool.false_ne_true]
      exact iff_of_false hnonneg.not_gt fun h => Bool.false_ne_true h.1

-- ================================================== the greatest double

/-- A bound for the units of a double by its exponent. -/
theorem units_lt_one_mul {k : Nat} (h : x.magnitude / fractionCount ≤ unitExponent + k + 1) :
    x.units < one * (2 ^ 53 * 2 ^ k) := by
  have hunits := unitsAt_add_pow_le h
  rw [← units_eq, pow_add, ← one_eq, Nat.mul_left_comm] at hunits
  exact (Nat.lt_add_of_pos_right (Nat.mul_pos one_pos (pow_two_pos k))).trans_le hunits

/-- Even the greatest double is displayed with no more digits than the precision
allows. -/
theorem displayUnits_lt (hx : x.isFinite = true) : x.displayUnits < 10 ^ 400 := by
  have hscaled : x.units * displayOne < one * (2 ^ 53 * 2 ^ 971 * displayOne) := by
    rw [← Nat.mul_assoc]
    exact Nat.mul_lt_mul_of_pos_right (units_lt_one_mul x (exponent_le_of_isFinite hx)) (by decide)
  exact (halfUp_lt one_pos hscaled).trans_le (by decide +kernel)

-- ============================================================== the text

/-- The decimal that a double equals. -/
def exact : Decimal :=
  ⟨x.units * 5 ^ unitExponent, -unitExponent⟩

/-- The decimal that a double is written from is exact. -/
theorem value_exact : x.exact.value = |x.toRat| := by
  have hten : (10 : ℚ) ^ unitExponent = 2 ^ unitExponent * 5 ^ unitExponent := by
    rw [← mul_pow]
    norm_num only
  have hfive : (5 : ℚ) ^ unitExponent ≠ 0 := by positivity
  rw [abs_toRat, one_eq, Decimal.value, exact, zpow_neg, zpow_natCast, hten, Nat.cast_mul,
    Nat.cast_pow, Nat.cast_pow, Nat.cast_ofNat, Nat.cast_ofNat, ← div_eq_mul_inv,
    mul_div_mul_right _ _ hfive]

/-- The digits that are printed for the magnitude. -/
def displayDigits : PlainDecimal displayPlaces :=
  .ofUnits (by decide) x.displayUnits

/-- The text that is displayed: the digits, with a sign if what they say is
negative. -/
theorem displayText_eq (hx : x.isFinite = true) :
    x.displayText = signed (decide (x.displayed < 0)) x.displayDigits.chars := by
  have hmagnitude : x.magnitude < infinityBits := of_decide_eq_true hx
  have hnan : x.isNaN = false := decide_eq_false hmagnitude.not_gt
  have hinfinite : x.isInfinite = false := beq_false_of_ne hmagnitude.ne
  unfold displayText
  rw [hnan, if_neg Bool.false_ne_true, hinfinite, if_neg Bool.false_ne_true]
  dsimp only
  split
  · next hzero =>
      have hdisplayed : x.displayed = 0 := (displayed_eq_zero_iff x).2 hzero
      rw [displayDigits, hzero, hdisplayed]
      rfl
  · next hne =>
      have hsign : decide (x.displayed < 0) = x.isNegative := by
        rw [Bool.eq_iff_iff, decide_eq_true_iff, displayed_neg_iff]
        exact and_iff_left hne
      rw [hsign]
      rfl

/-- What is displayed is whole exactly if no digits follow the point. -/
theorem displayed_isInt_iff : (∃ k : ℤ, x.displayed = k) ↔ x.displayDigits.fraction = [] := by
  have habs : (∃ k : ℤ, x.displayed = k) ↔ ∃ k : ℤ, |x.displayed| = k := by
    constructor
    · rintro ⟨k, hk⟩
      exact ⟨|k|, by rw [hk, Int.cast_abs]⟩
    · rintro ⟨k, hk⟩
      rcases abs_choice x.displayed with heq | heq
      · exact ⟨k, by rw [← hk, heq]⟩
      · exact ⟨-k, by rw [Int.cast_neg, ← hk, heq, neg_neg]⟩
  have hten : (10 : ℚ) ^ displayPlaces ≠ 0 := by positivity
  rw [habs, abs_displayed, displayDigits, PlainDecimal.fraction_ofUnits,
    ← Nat.dvd_iff_mod_eq_zero, ← Int.natCast_dvd_natCast]
  refine exists_congr fun k => ?_
  rw [div_eq_iff hten, mul_comm]
  exact_mod_cast Iff.rfl

end Double

/-- The text printed for a finite number is its value rounded to ten places,
halves away from zero. Rounding the exact decimal does not exceed a precision
of four hundred digits. Nothing is superfluous in the text: a minus sign
stands before what is below zero, and a fraction is written for what is not
whole. -/
theorem displayText_rounds_half_up (x : Double) (hx : x.isFinite = true) :
    let q := x.toRat
    let r : ℚ := SignType.sign q * ⌊|q| * 10 ^ 10 + 1 / 2⌋ / 10 ^ 10
    (x.exact.value = |q| ∧ x.exact.quantize? 10 400 = some ⟨x.displayUnits, -10⟩
        ∧ Decimal.value ⟨x.displayUnits, -10⟩ = |r|)
      ∧ (r = 0 → x.displayText = "0")
      ∧ ∃ d : PlainDecimal 10, x.displayText = Double.signed (decide (r < 0)) d.chars
          ∧ d.value = |r| ∧ (d.fraction ≠ [] ↔ ∀ k : ℤ, r ≠ k) := by
  have hfloor : ⌊x.exact.value * 10 ^ Double.displayPlaces + 1 / 2⌋ = (x.displayUnits : ℤ) := by
    rw [Double.value_exact, Double.floor_magnitude]
  have hquantize : x.exact.quantize? Double.displayPlaces 400 = some ⟨x.displayUnits, -10⟩ :=
    Decimal.quantize?_eq_some (by decide) (Double.displayUnits_lt x hx) hfloor
  have hvalue : Decimal.value ⟨x.displayUnits, -10⟩ = |x.displayed| := by
    rw [Double.abs_displayed, Decimal.value, zpow_neg, ← div_eq_mul_inv]
    rfl
  refine ⟨⟨Double.value_exact x, hquantize, hvalue⟩, fun hzero => ?_, x.displayDigits,
    Double.displayText_eq x hx, ?_, ?_⟩
  · change x.displayed = 0 at hzero
    have hunits := (Double.displayed_eq_zero_iff x).1 hzero
    rw [Double.displayText_eq x hx, Double.displayDigits, hzero, hunits]
    rfl
  · exact (PlainDecimal.value_ofUnits _ _).trans (Double.abs_displayed x).symm
  · rw [← not_exists]
    exact not_congr (Double.displayed_isInt_iff x).symm

/-- Half a unit in the last place goes away from zero: the double is minus
two to the power of minus eleven. -/
theorem displayText_rounds_half_up_tie :
    let x : Double := ⟨0xBF40000000000000⟩
    let q := x.toRat
    let r : ℚ := SignType.sign q * ⌊|q| * 10 ^ 10 + 1 / 2⌋ / 10 ^ 10
    x.isFinite = true ∧ x.displayText = "-0.0004882813"
      ∧ (x.exact.value = |q| ∧ x.exact.quantize? 10 400 = some ⟨x.displayUnits, -10⟩
        ∧ Decimal.value ⟨x.displayUnits, -10⟩ = |r|)
      ∧ (r = 0 → x.displayText = "0")
      ∧ ∃ d : PlainDecimal 10, x.displayText = Double.signed (decide (r < 0)) d.chars
          ∧ d.value = |r| ∧ (d.fraction ≠ [] ↔ ∀ k : ℤ, r ≠ k) :=
  ⟨by decide, by decide +kernel, displayText_rounds_half_up _ (by decide)⟩

end Lox

/-
Rounding takes the nearest double.

# Magnitudes

The magnitude bits of a double number the magnitudes in order, and
`Double.unitsAt` is the value that each number stands for, in units. For the
numbers from infinity's on it goes on in the same way, as if exponents had
no end, so that what rounding does can be said before it is known whether
there is an overflow.

# The nearest one

The nearest whole number to a quotient is at most half away from it, and so
no whole number is nearer (`abs_nearestEven_sub_le`). Around the quotient to
be rounded the magnitudes are the multiples of one power of two. A smaller
magnitude need not be such a multiple, but it is below one that is, on the
same side. So none is nearer than the multiple that rounding chooses
(`roundMagnitude_nearest`). A quotient that is close to some finite double is
rounded to a finite double (`round_near`).

# The order

Magnitudes grow with their values, and rounding keeps the order of quotients
(`roundMagnitude_mono`). So what is rounded to one double is an interval. Next
to a double it reaches at least one part in 2 ^ 54 far
(`roundMagnitude_of_close`).

`Double.one` is far too great a number to be computed with. Where a proof
needs arithmetic, it is stated for any power or any positive number in its
place.
-/
import Lox.Double.Decimal
import Mathlib.Data.Nat.Cast.Order.Field
import Mathlib.Data.Rat.Floor
import Mathlib.Tactic.FieldSimp
import Mathlib.Tactic.Linarith

namespace Lox.Double

-- ================================================================ powers

theorem pow_two_eq (n : Nat) : Nat.pow 2 n = 2 ^ n :=
  rfl

theorem pow_two_pos (n : Nat) : 0 < Nat.pow 2 n :=
  Nat.pow_pos Nat.zero_lt_two

/-- One, counted in units of the least double. -/
theorem one_eq : one = 2 ^ unitExponent := by
  unfold one
  exact pow_two_eq unitExponent

theorem one_pos : 0 < one := by
  unfold one
  exact pow_two_pos unitExponent

-- ============================================================ magnitudes

/-- The value of magnitude bits in units, as if exponents had no end. -/
def unitsAt (magnitude : Nat) : Nat :=
  let exponent := magnitude / fractionCount
  let fraction := magnitude % fractionCount
  if exponent = 0 then fraction else (fractionCount + fraction) * Nat.pow 2 (exponent - 1)

theorem units_eq (x : Double) : x.units = unitsAt x.magnitude :=
  rfl

/-- The value by exponent and fraction. -/
theorem unitsAt_fields (exponent : Nat) {fraction : Nat} (h : fraction < fractionCount) :
    unitsAt (exponent * fractionCount + fraction)
      = if exponent = 0 then fraction
        else (fractionCount + fraction) * Nat.pow 2 (exponent - 1) := by
  have hquotient : (exponent * fractionCount + fraction) / fractionCount = exponent := by
    rw [Nat.mul_comm, Nat.mul_add_div (by decide), Nat.div_eq_of_lt h, Nat.add_zero]
  have hrest : (exponent * fractionCount + fraction) % fractionCount = fraction := by
    rw [Nat.mul_comm, Nat.mul_add_mod, Nat.mod_eq_of_lt h]
  rw [unitsAt, hquotient, hrest]

/-- A magnitude is a significand of at most fifty-three bits times a power of
two. -/
theorem exists_unitsAt_eq (m : Nat) : ∃ s e, unitsAt m = s * 2 ^ e ∧ s < 2 ^ 53 := by
  have hfraction : m % fractionCount < 2 ^ 52 := Nat.mod_lt _ (by decide)
  by_cases hexponent : m / fractionCount = 0
  · exact ⟨_, 0, by rw [unitsAt, if_pos hexponent, pow_zero, mul_one], by omega⟩
  · exact ⟨_, m / fractionCount - 1, by rw [unitsAt, if_neg hexponent, pow_two_eq],
      Nat.add_lt_add_left hfraction fractionCount⟩

/-- A significand is written by adding it to the bits of the exponent, if it
is not subnormal or needs no exponent. Should it have gone up to the next
power of two, it carries into the exponent. -/
theorem unitsAt_add {shift s : Nat} (hs : s ≤ 2 ^ 53) (hnormal : shift = 0 ∨ 2 ^ 52 ≤ s) :
    unitsAt (shift * fractionCount + s) = s * 2 ^ shift := by
  rcases Nat.lt_or_ge s (2 ^ 52) with hsub | hge
  · obtain rfl : shift = 0 := hnormal.resolve_right hsub.not_ge
    rw [unitsAt_fields 0 hsub, if_pos rfl, pow_zero, mul_one]
  · rcases Nat.eq_or_lt_of_le hs with rfl | hlt
    · have hcarry : shift * fractionCount + 2 ^ 53 = (shift + 2) * fractionCount + 0 := by
        rw [fractionCount]
        omega
      rw [hcarry, unitsAt_fields _ (by decide), if_neg (by omega), fractionCount, pow_two_eq,
        show shift + 2 - 1 = shift + 1 by omega, pow_succ]
      omega
    · have hhidden : shift * fractionCount + s = (shift + 1) * fractionCount + (s - 2 ^ 52) := by
        rw [fractionCount]
        omega
      have hfraction : s - 2 ^ 52 < fractionCount := by
        rw [fractionCount]
        omega
      have hsignificand : fractionCount + (s - 2 ^ 52) = s := by
        rw [fractionCount]
        omega
      rw [hhidden, unitsAt_fields _ hfraction, if_neg (Nat.succ_ne_zero shift), hsignificand,
        Nat.add_sub_cancel, pow_two_eq]

/-- Below the greatest magnitude of an exponent there is room for one more of
its steps. -/
theorem unitsAt_add_pow_le {e m : Nat} (h : m / fractionCount ≤ e + 1) :
    unitsAt m + 2 ^ e ≤ 2 ^ 53 * 2 ^ e := by
  have hfraction : m % fractionCount < fractionCount := Nat.mod_lt _ (by decide)
  have hsignificand : unitsAt m ≤ (fractionCount + m % fractionCount) * 2 ^ e := by
    unfold unitsAt
    dsimp only
    split
    · exact (Nat.le_add_left _ _).trans (Nat.le_mul_of_pos_right _ (pow_two_pos e))
    · exact Nat.mul_le_mul_left _ (Nat.pow_le_pow_right Nat.zero_lt_two (by omega))
  calc unitsAt m + 2 ^ e
      ≤ (fractionCount + m % fractionCount + 1) * 2 ^ e := by
        rw [Nat.add_mul _ 1, Nat.one_mul]
        exact Nat.add_le_add_right hsignificand _
    _ ≤ 2 ^ 53 * 2 ^ e :=
        Nat.mul_le_mul_right _ (Nat.add_le_add_left hfraction fractionCount)

/-- From some exponent on a double has at least so many units. -/
theorem pow_le_unitsAt {e m : Nat} (h : e + 2 ≤ m / fractionCount) :
    2 ^ 53 * 2 ^ e ≤ unitsAt m := by
  rw [unitsAt, if_neg (by omega)]
  calc 2 ^ 53 * 2 ^ e = fractionCount * 2 ^ (e + 1) := by
        rw [pow_succ, fractionCount]
        omega
    _ ≤ (fractionCount + m % fractionCount) * Nat.pow 2 (m / fractionCount - 1) :=
        Nat.mul_le_mul (Nat.le_add_right _ _)
          (Nat.pow_le_pow_right Nat.zero_lt_two (by omega))

variable {x : Double}

/-- The exponents of finite doubles end below the one that marks infinity. -/
theorem exponent_le_of_isFinite (hx : x.isFinite = true) : x.magnitude / fractionCount ≤ 2046 := by
  have hmagnitude : x.magnitude < infinityBits := of_decide_eq_true hx
  exact Nat.le_of_lt_succ ((Nat.div_lt_iff_lt_mul (by decide)).2 hmagnitude)

/-- From infinity's bits on, magnitudes are beyond every finite double, by more
than one. -/
theorem units_add_one_le {m : Nat} (hx : x.isFinite = true) (hm : infinityBits ≤ m) :
    x.units + one ≤ unitsAt m := by
  have hexponent := exponent_le_of_isFinite hx
  have hbeyond : 2047 ≤ m / fractionCount := (Nat.le_div_iff_mul_le (by decide)).2 hm
  generalize he : 2045 = e at *
  have hone : one ≤ 2 ^ e := by
    rw [one_eq]
    exact Nat.pow_le_pow_right Nat.zero_lt_two (he ▸ by decide)
  calc x.units + one ≤ x.units + 2 ^ e := Nat.add_le_add_left hone _
    _ ≤ 2 ^ 53 * 2 ^ e := unitsAt_add_pow_le (by omega)
    _ ≤ unitsAt m := pow_le_unitsAt (by omega)

-- ================================================================== bits

/-- The magnitude of a double leaves out the sign. -/
theorem magnitude_lt (x : Double) : x.magnitude < signWeight :=
  Nat.mod_lt _ (by decide)

/-- The bits of a magnitude with a sign. -/
theorem toNat_ofMagnitude (negative : Bool) {m : Nat} (h : m < signWeight) :
    (ofMagnitude negative m).bits.toNat = m + if negative then signWeight else 0 := by
  have hbits : m + (if negative then signWeight else 0) < 2 ^ 64 := by
    unfold signWeight at h ⊢
    split <;> omega
  exact UInt64.toNat_ofNat_of_lt' hbits

/-- Putting a sign to a magnitude keeps the magnitude. -/
theorem magnitude_ofMagnitude (negative : Bool) {m : Nat} (h : m < signWeight) :
    (ofMagnitude negative m).magnitude = m := by
  rw [magnitude, toNat_ofMagnitude negative h]
  cases negative with
  | false => exact Nat.mod_eq_of_lt h
  | true => exact (Nat.add_mod_right m signWeight).trans (Nat.mod_eq_of_lt h)

theorem isNegative_ofMagnitude (negative : Bool) {m : Nat} (h : m < signWeight) :
    (ofMagnitude negative m).isNegative = negative := by
  rw [isNegative, toNat_ofMagnitude negative h]
  cases negative with
  | false => exact decide_eq_false h.not_ge
  | true => exact decide_eq_true (Nat.le_add_left _ _)

/-- Sign and magnitude are all there is. -/
theorem ofMagnitude_magnitude (x : Double) : ofMagnitude x.isNegative x.magnitude = x := by
  have hbits : x.bits.toNat < 2 ^ 64 := x.bits.toNat_lt
  have hnat : (ofMagnitude x.isNegative x.magnitude).bits.toNat = x.bits.toNat := by
    rw [toNat_ofMagnitude _ x.magnitude_lt]
    unfold magnitude isNegative signWeight
    simp only [decide_eq_true_eq]
    split <;> omega
  exact congrArg Double.mk (UInt64.toNat_inj.1 hnat)

theorem magnitude_neg (x : Double) : x.neg.magnitude = x.magnitude :=
  magnitude_ofMagnitude _ (magnitude_lt x)

theorem isNegative_neg (x : Double) : x.neg.isNegative = !x.isNegative :=
  isNegative_ofMagnitude _ (magnitude_lt x)

theorem units_neg (x : Double) : x.neg.units = x.units := by
  rw [units_eq, magnitude_neg, ← units_eq]

theorem isFinite_neg (x : Double) : x.neg.isFinite = x.isFinite := by
  rw [isFinite, magnitude_neg, isFinite]

-- ========================================================= whole numbers

/-- A whole number at most half away is as near as any. -/
theorem nearest_of_half {t : ℚ} {c : Nat} (h : |c - t| ≤ 1 / 2) (k : Nat) :
    |c - t| ≤ |k - t| := by
  rcases eq_or_ne k c with rfl | hne
  · exact le_refl _
  · have hgap : (1 : ℚ) ≤ |(k : ℚ) - c| := by
      have hint : (1 : ℤ) ≤ |(k : ℤ) - c| := Int.one_le_abs (by omega)
      exact_mod_cast hint
    have htriangle : |(k : ℚ) - c| ≤ |k - t| + |c - t| := by
      rw [abs_sub_comm (c : ℚ) t]
      exact abs_sub_le _ _ _
    linarith

/-- Rounding a quotient to a whole number is off by at most a half. -/
theorem abs_nearestEven_sub_le (n : Nat) {d : Nat} (hd : 0 < d) :
    |(nearestEven n d : ℚ) - n / d| ≤ 1 / 2 := by
  have hpos : (0 : ℚ) < d := by exact_mod_cast hd
  have hquotient : (n / d : ℚ) = (n / d : ℕ) + (n % d : ℕ) / d := by
    have hdivision : (n : ℚ) = d * (n / d : ℕ) + (n % d : ℕ) := by
      exact_mod_cast (Nat.div_add_mod n d).symm
    rw [hdivision]
    field_simp
  have hrest : 0 ≤ ((n % d : ℕ) : ℚ) / d := by positivity
  have hbelow : ((n % d : ℕ) : ℚ) / d < 1 := by
    rw [div_lt_one hpos]
    exact_mod_cast Nat.mod_lt n hd
  have hhalf : ((n % d : ℕ) : ℚ) / d * 2 = ((2 * (n % d) : ℕ) : ℚ) / d := by
    push_cast
    ring
  -- the rest decides, compared with half of the divisor
  rw [hquotient, abs_le]
  unfold nearestEven
  dsimp only
  split
  · next hless =>
      have hless' : ((2 * (n % d) : ℕ) : ℚ) / d < 1 := by
        rw [div_lt_one hpos]
        exact_mod_cast hless
      constructor <;> linarith
  · split
    · next hmore =>
        have hmore' : 1 < ((2 * (n % d) : ℕ) : ℚ) / d := by
          rw [one_lt_div hpos]
          exact_mod_cast hmore
        push_cast at *
        constructor <;> linarith
    · next hless hmore =>
        have htie : ((2 * (n % d) : ℕ) : ℚ) / d = 1 := by
          rw [div_eq_one_iff_eq hpos.ne']
          exact_mod_cast (by omega : 2 * (n % d) = d)
        rcases Nat.mod_two_eq_zero_or_one (n / d) with heven | hodd
        · rw [heven]
          push_cast at *
          constructor <;> linarith
        · rw [hodd]
          push_cast at *
          constructor <;> linarith

/-- It does not go below the whole part. -/
theorem le_nearestEven (n d : Nat) : n / d ≤ nearestEven n d := by
  unfold nearestEven
  dsimp only
  split
  · exact Nat.le_refl _
  · split
    · exact Nat.le_succ _
    · exact Nat.le_add_right _ _

/-- Nor does it go further than the next whole number. -/
theorem nearestEven_le (n d : Nat) : nearestEven n d ≤ n / d + 1 := by
  have hparity : n / d % 2 < 2 := Nat.mod_lt _ Nat.zero_lt_two
  unfold nearestEven
  dsimp only
  split
  · exact Nat.le_succ _
  · split
    · exact Nat.le_refl _
    · omega

/-- The nearest multiple. -/
theorem nearestEven_mul_nearest (n : Nat) {d p : Nat} (hd : 0 < d) (hp : 0 < p) (k : Nat) :
    |((nearestEven n (d * p) * p : ℕ) : ℚ) - n / d| ≤ |((k * p : ℕ) : ℚ) - n / d| := by
  have hpos : (0 : ℚ) < p := by exact_mod_cast hp
  have hnearest := nearest_of_half (abs_nearestEven_sub_le n (Nat.mul_pos hd hp)) k
  have hscale (c : ℕ) : |((c * p : ℕ) : ℚ) - n / d| = |(c : ℚ) - n / ((d * p : ℕ) : ℚ)| * p := by
    have hmul : ((c * p : ℕ) : ℚ) - n / d = ((c : ℚ) - n / ((d * p : ℕ) : ℚ)) * p := by
      push_cast
      field_simp
    rw [hmul, abs_mul, abs_of_pos hpos]
  rw [hscale, hscale]
  exact mul_le_mul_of_nonneg_right hnearest hpos.le

-- =============================================================== doubles

/-- The exponent of the power of two whose multiples the doubles around a
quotient are. -/
def roundShift (n d : Nat) : Nat :=
  (n / d).log2 - 52

/-- The magnitude bits that a quotient is rounded to. -/
def roundMagnitude (n d : Nat) : Nat :=
  roundShift n d * fractionCount + nearestEven n (d * 2 ^ roundShift n d)

/-- A quotient is rounded to a magnitude, or to infinity beyond the greatest. -/
theorem round_eq (negative : Bool) (n d : Nat) :
    round negative n d
      = if roundMagnitude n d < infinityBits then ofMagnitude negative (roundMagnitude n d)
        else infinity negative :=
  rfl

/-- So shifted, the quotient has no more bits than a fraction holds. -/
theorem lt_pow_roundShift (n d : Nat) : n / d < 2 ^ roundShift n d * 2 ^ 53 := by
  rw [← pow_add]
  refine Nat.lt_log2_self.trans_le (Nat.pow_le_pow_right Nat.zero_lt_two ?_)
  unfold roundShift
  omega

/-- If it is shifted at all, it has no fewer. -/
theorem pow_roundShift_le {n d : Nat} (h : roundShift n d ≠ 0) :
    2 ^ 52 * 2 ^ roundShift n d ≤ n / d := by
  have hlog : 52 + roundShift n d = (n / d).log2 := by
    unfold roundShift at h ⊢
    omega
  have hne : n / d ≠ 0 := by
    intro hzero
    rw [hzero, Nat.log2_zero] at hlog
    omega
  rw [← pow_add, hlog]
  exact Nat.log2_self_le hne

/-- The value of the rounded quotient is a multiple of the power of two. -/
theorem unitsAt_roundMagnitude (n d : Nat) :
    unitsAt (roundMagnitude n d)
      = nearestEven n (d * 2 ^ roundShift n d) * 2 ^ roundShift n d := by
  refine unitsAt_add ?_ (or_iff_not_imp_left.2 fun hshift => ?_)
  · refine (nearestEven_le _ _).trans ?_
    rw [← Nat.div_div_eq_div_mul]
    exact Nat.div_lt_of_lt_mul (lt_pow_roundShift n d)
  · refine le_trans ?_ (le_nearestEven _ _)
    rw [← Nat.div_div_eq_div_mul]
    exact (Nat.le_div_iff_mul_le (Nat.pow_pos Nat.zero_lt_two)).2 (pow_roundShift_le hshift)

/-- No magnitude is nearer to the quotient than the one it is rounded to. -/
theorem roundMagnitude_nearest (n : Nat) {d : Nat} (hd : 0 < d) (m : Nat) :
    |(unitsAt (roundMagnitude n d) : ℚ) - n / d| ≤ |(unitsAt m : ℚ) - n / d| := by
  have hmultiple (k : ℕ) := nearestEven_mul_nearest n hd (Nat.pow_pos Nat.zero_lt_two) k
    (p := 2 ^ roundShift n d)
  rw [unitsAt_roundMagnitude]
  obtain ⟨s, e, hm, hs⟩ := exists_unitsAt_eq m
  rw [hm]
  rcases Nat.lt_or_ge e (roundShift n d) with hlt | hge
  · -- the magnitude is below a multiple that is not beyond the quotient
    refine (hmultiple (2 ^ 52)).trans ?_
    have hbelow : ((s * 2 ^ e : ℕ) : ℚ) ≤ ((2 ^ 52 * 2 ^ roundShift n d : ℕ) : ℚ) := by
      refine Nat.cast_le.2 ?_
      calc s * 2 ^ e ≤ 2 ^ 53 * 2 ^ e := Nat.mul_le_mul_right _ hs.le
        _ = 2 ^ 52 * 2 ^ (e + 1) := by
          rw [pow_succ 2 e]
          omega
        _ ≤ 2 ^ 52 * 2 ^ roundShift n d :=
          Nat.mul_le_mul_left _ (Nat.pow_le_pow_right Nat.zero_lt_two hlt)
    have hquotient : ((2 ^ 52 * 2 ^ roundShift n d : ℕ) : ℚ) ≤ n / d :=
      (Nat.cast_le.2 (pow_roundShift_le (by omega))).trans Nat.cast_div_le
    rw [abs_sub_comm, abs_of_nonneg (sub_nonneg.2 hquotient), abs_sub_comm,
      abs_of_nonneg (sub_nonneg.2 (hbelow.trans hquotient))]
    exact sub_le_sub_left hbelow _
  · have hmul : s * 2 ^ e = s * 2 ^ (e - roundShift n d) * 2 ^ roundShift n d := by
      rw [Nat.mul_assoc, ← pow_add, Nat.sub_add_cancel hge]
    rw [hmul]
    exact hmultiple _

/-- A quotient less than half of one away from a finite double is rounded to a
finite double, and that one is no farther away. -/
theorem round_near {v : Double} (hv : v.isFinite = true) {n d : Nat} (hd : 0 < d)
    (hnear : |(v.units : ℚ) - n / d| < one / 2) (negative : Bool) :
    (round negative n d).isFinite = true ∧ (round negative n d).isNegative = negative
      ∧ |((round negative n d).units : ℚ) - n / d| ≤ |(v.units : ℚ) - n / d| := by
  have hnearest := roundMagnitude_nearest n hd v.magnitude
  rw [← units_eq] at hnearest
  have hfinite : roundMagnitude n d < infinityBits := by
    by_contra hinfinite
    have hfar : (v.units : ℚ) + one ≤ unitsAt (roundMagnitude n d) := by
      exact_mod_cast units_add_one_le hv (Nat.le_of_not_lt hinfinite)
    have habove := (le_abs_self _).trans hnearest
    have hbelow := neg_le_abs ((v.units : ℚ) - n / d)
    linarith
  have hbits : roundMagnitude n d < signWeight := hfinite.trans (by decide)
  rw [round_eq, if_pos hfinite]
  refine ⟨?_, isNegative_ofMagnitude _ hbits, ?_⟩
  · rw [isFinite, magnitude_ofMagnitude _ hbits]
    exact decide_eq_true hfinite
  · rw [units_eq, magnitude_ofMagnitude _ hbits]
    exact hnearest

-- ============================================================= the order

/-- A magnitude as rounding writes it: a significand added to the bits of an
exponent. -/
theorem exists_eq_add (m : Nat) :
    ∃ shift s, m = shift * fractionCount + s ∧ s < 2 ^ 53 ∧ (shift = 0 ∨ 2 ^ 52 ≤ s) := by
  have hfraction : m % fractionCount < 2 ^ 52 := Nat.mod_lt _ (by decide)
  have hdivision : fractionCount * (m / fractionCount) + m % fractionCount = m :=
    Nat.div_add_mod m fractionCount
  have hcount : fractionCount = 2 ^ 52 := rfl
  rcases hexponent : m / fractionCount with _ | e
  · refine ⟨0, m, (Nat.zero_add m).symm.trans (by rw [Nat.zero_mul]), ?_, .inl rfl⟩
    rw [hexponent] at hdivision
    omega
  · refine ⟨e, fractionCount + m % fractionCount, ?_, ?_, .inr ?_⟩
    · rw [hexponent, Nat.mul_succ, Nat.mul_comm] at hdivision
      omega
    · omega
    · omega

/-- From a magnitude to the next it is one step, and the next is at most
2 ^ 53 steps above zero. -/
theorem exists_step (m : Nat) :
    ∃ p, 0 < p ∧ unitsAt (m + 1) = unitsAt m + p ∧ unitsAt (m + 1) ≤ 2 ^ 53 * p := by
  obtain ⟨shift, s, rfl, hs, hnormal⟩ := exists_eq_add m
  have hnext : unitsAt (shift * fractionCount + (s + 1)) = (s + 1) * 2 ^ shift :=
    unitsAt_add (s := s + 1) hs (hnormal.imp_right (Nat.le_succ_of_le))
  refine ⟨2 ^ shift, Nat.pow_pos Nat.zero_lt_two, ?_, ?_⟩
  · rw [Nat.add_assoc, hnext, unitsAt_add hs.le hnormal, Nat.succ_mul]
  · rw [Nat.add_assoc, hnext]
    exact Nat.mul_le_mul_right (2 ^ shift) hs

/-- Greater magnitudes have more units. -/
theorem strictMono_unitsAt : StrictMono unitsAt := by
  refine strictMono_nat_of_lt_succ fun m => ?_
  obtain ⟨p, hp, hnext, -⟩ := exists_step m
  omega

/-- Other magnitudes are at least one part in 2 ^ 53 away. -/
theorem unitsAt_le_mul_abs {m k : Nat} (h : k ≠ m) :
    (unitsAt m : ℚ) ≤ 2 ^ 53 * |(unitsAt k : ℚ) - unitsAt m| := by
  rcases Nat.lt_or_gt_of_ne h with hlt | hgt
  · obtain ⟨m, rfl⟩ := Nat.exists_eq_succ_of_ne_zero (Nat.ne_zero_of_lt hlt)
    obtain ⟨p, -, hnext, hle⟩ := exists_step m
    have hk : unitsAt k ≤ unitsAt m := strictMono_unitsAt.monotone (Nat.le_of_lt_succ hlt)
    have hgap : (p : ℚ) ≤ -((unitsAt k : ℚ) - unitsAt (m + 1)) := by
      have hsum : ((unitsAt k + p : ℕ) : ℚ) ≤ unitsAt (m + 1) := Nat.cast_le.2 (by omega)
      push_cast at hsum
      linarith
    have hle' : (unitsAt (m + 1) : ℚ) ≤ 2 ^ 53 * p := by exact_mod_cast hle
    have habs := neg_le_abs ((unitsAt k : ℚ) - unitsAt (m + 1))
    exact hle'.trans (mul_le_mul_of_nonneg_left (hgap.trans habs) (by norm_num))
  · obtain ⟨p, -, hnext, hle⟩ := exists_step m
    have hk : unitsAt (m + 1) ≤ unitsAt k := strictMono_unitsAt.monotone hgt
    have hgap : (p : ℚ) ≤ (unitsAt k : ℚ) - unitsAt m := by
      have hsum : ((unitsAt m + p : ℕ) : ℚ) ≤ unitsAt k := Nat.cast_le.2 (by omega)
      push_cast at hsum
      linarith
    have hle' : (unitsAt m : ℚ) ≤ 2 ^ 53 * p := by
      exact_mod_cast (strictMono_unitsAt (Nat.lt_succ_self m)).le.trans hle
    have habs := le_abs_self ((unitsAt k : ℚ) - unitsAt m)
    exact hle'.trans (mul_le_mul_of_nonneg_left (hgap.trans habs) (by norm_num))

/-- Rounding a quotient does not depend on how it is written. -/
theorem nearestEven_mul_left (n d : Nat) {k : Nat} (hk : 0 < k) :
    nearestEven (k * n) (k * d) = nearestEven n d := by
  unfold nearestEven
  dsimp only
  rw [Nat.mul_div_mul_left _ _ hk, Nat.mul_mod_mul_left, Nat.mul_left_comm 2 k]
  simp only [Nat.mul_lt_mul_left hk]

theorem roundMagnitude_mul_left (n d : Nat) {k : Nat} (hk : 0 < k) :
    roundMagnitude (k * n) (k * d) = roundMagnitude n d := by
  have hshift : roundShift (k * n) (k * d) = roundShift n d := by
    rw [roundShift, Nat.mul_div_mul_left _ _ hk, roundShift]
  rw [roundMagnitude, hshift, Nat.mul_assoc, nearestEven_mul_left _ _ hk, roundMagnitude]

variable {n d n' d' : Nat}

/-- Rounding depends on the quotient only. -/
theorem roundMagnitude_congr (hd : 0 < d) (hd' : 0 < d') (h : (n / d : ℚ) = n' / d') :
    roundMagnitude n d = roundMagnitude n' d' := by
  have hpos : (d : ℚ) ≠ 0 := Nat.cast_ne_zero.2 hd.ne'
  have hpos' : (d' : ℚ) ≠ 0 := Nat.cast_ne_zero.2 hd'.ne'
  have hcross : n * d' = n' * d := by
    rw [div_eq_div_iff hpos hpos'] at h
    exact_mod_cast h
  rw [← roundMagnitude_mul_left n d hd', Nat.mul_comm d' n, hcross, Nat.mul_comm n' d,
    Nat.mul_comm d' d, roundMagnitude_mul_left n' d' hd]

/-- Being nearer, said without absolute values. -/
theorem mul_nonpos_of_nearer {a b q : ℚ} (h : |a - q| ≤ |b - q|) :
    (a - b) * (a + b - 2 * q) ≤ 0 := by
  linarith [sq_le_sq.2 h]

/-- Rounding keeps the order. If a greater quotient were rounded to a smaller
magnitude, both would be halfway between the two magnitudes. -/
theorem roundMagnitude_mono (hd : 0 < d) (hd' : 0 < d') (h : (n / d : ℚ) ≤ n' / d') :
    roundMagnitude n d ≤ roundMagnitude n' d' := by
  by_contra hlt
  rw [not_le] at hlt
  have hunits : (unitsAt (roundMagnitude n' d') : ℚ) < unitsAt (roundMagnitude n d) :=
    Nat.cast_lt.2 (strictMono_unitsAt hlt)
  have habove := nonpos_of_mul_nonpos_right
    (mul_nonpos_of_nearer (roundMagnitude_nearest n hd (roundMagnitude n' d'))) (sub_pos.2 hunits)
  have hbelow := nonneg_of_mul_nonpos_right
    (mul_nonpos_of_nearer (roundMagnitude_nearest n' hd' (roundMagnitude n d))) (sub_neg.2 hunits)
  have heq : (n / d : ℚ) = n' / d' := by linarith
  exact hlt.ne (roundMagnitude_congr hd hd' heq).symm

/-- A quotient within one part in 2 ^ 54 of a magnitude is rounded to it. -/
theorem roundMagnitude_of_close (hd : 0 < d) {m : Nat}
    (h : |(unitsAt m : ℚ) - n / d| * 2 ^ 54 < unitsAt m) : roundMagnitude n d = m := by
  by_contra hne
  have hgap := unitsAt_le_mul_abs hne
  have hnearest := roundMagnitude_nearest n hd m
  have htriangle := abs_sub_le (unitsAt (roundMagnitude n d) : ℚ) (n / d) (unitsAt m)
  rw [abs_sub_comm (n / d : ℚ)] at htriangle
  linarith

end Lox.Double

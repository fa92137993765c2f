/-
The shortest decimal that reads back as a double.

# Reading

A decimal reads as a double if rounding its value gives the magnitude of the
double. Rounding keeps the order, so what lies between two decimals that read
as a double reads as it too (`Decimal.readsAs_between`), and so does all that
is within one part in 2 ^ 54 of its value (`Decimal.readsAs_of_close`).

# The grids

The decimals with a given number of digits that have the first digit where the
double has its own lie on a grid, and the double between two neighbours on it.
Any decimal with so few digits is on the far side of one of the two, even if
its first digit is elsewhere: then a power of ten lies between, and that is on
the grid. So if any decimal with so many digits reads as the double, one of
the two neighbours does (`Double.isSome_withDigits?`). On the grid of seventeen
digits the nearer neighbour is close enough to do so in any case.

The search therefore ends on a grid, and no decimal with fewer digits than
the one it finds reads as the double (`Double.length_digits_shortest_le`).
-/
import Lox.Proofs.Display
import Mathlib.Algebra.Order.Floor.Semifield

namespace Lox

-- =============================================================== reading

namespace Double

/-- A double that is not zero has units. -/
theorem units_pos {x : Double} (h : x.isZero = false) : 0 < x.units := by
  have hmagnitude : 0 < x.magnitude := Nat.pos_of_ne_zero (ne_of_beq_false h)
  have hunits := strictMono_unitsAt hmagnitude
  rwa [← units_eq] at hunits

/-- And its magnitude is positive. -/
theorem abs_toRat_pos {x : Double} (h : x.isZero = false) : 0 < |x.toRat| := by
  rw [abs_toRat]
  exact div_pos (Nat.cast_pos.2 (units_pos h)) (Nat.cast_pos.2 one_pos)

end Double

namespace Decimal

theorem denominator_pos (d : Decimal) : 0 < d.denominator :=
  Nat.pow_pos (by decide)

variable {x : Double} {d d₁ d₂ : Decimal}

/-- Decimals are read by the magnitude they are rounded to. -/
theorem readsAs_iff (hx : x.isFinite = true) :
    d.readsAs x = true ↔ Double.roundMagnitude d.numerator d.denominator = x.magnitude := by
  have hfinite : x.magnitude < Double.infinityBits := of_decide_eq_true hx
  rw [readsAs, beq_iff_eq, toDouble, Double.round_eq]
  split
  · next hlt =>
      constructor
      · intro heq
        rw [← heq, Double.magnitude_ofMagnitude _ (hlt.trans (by decide))]
      · intro heq
        rw [heq, Double.ofMagnitude_magnitude]
  · next hge =>
      refine iff_of_false (fun heq => ?_) (fun heq => hge (heq ▸ hfinite))
      rw [← heq, Double.infinity, Double.magnitude_ofMagnitude _ (by decide)] at hfinite
      exact Nat.lt_irrefl _ hfinite

/-- Greater decimals are rounded to greater magnitudes. -/
theorem roundMagnitude_le (h : d₁.value ≤ d₂.value) :
    Double.roundMagnitude d₁.numerator d₁.denominator
      ≤ Double.roundMagnitude d₂.numerator d₂.denominator := by
  refine Double.roundMagnitude_mono d₁.denominator_pos d₂.denominator_pos ?_
  rw [numerator_div_denominator, numerator_div_denominator]
  exact mul_le_mul_of_nonneg_right h (Nat.cast_nonneg _)

/-- What lies between decimals that read as a double reads as it. -/
theorem readsAs_between (hx : x.isFinite = true) (h₁ : d₁.readsAs x = true)
    (h₂ : d₂.readsAs x = true) (hle₁ : d₁.value ≤ d.value) (hle₂ : d.value ≤ d₂.value) :
    d.readsAs x = true := by
  rw [readsAs_iff hx] at h₁ h₂ ⊢
  exact Nat.le_antisymm ((roundMagnitude_le hle₂).trans h₂.le)
    (h₁.ge.trans (roundMagnitude_le hle₁))

/-- Only the value of a decimal matters to how it is read. -/
theorem readsAs_of_value_eq (hx : x.isFinite = true) (h : d₁.readsAs x = true)
    (hvalue : d.value = d₁.value) : d.readsAs x = true :=
  readsAs_between hx h h hvalue.ge hvalue.le

/-- A decimal close to a double is read as that double. -/
theorem readsAs_of_close (hx : x.isFinite = true)
    (h : |(|x.toRat| - d.value)| * 2 ^ 54 < |x.toRat|) : d.readsAs x = true := by
  have hone : (0 : ℚ) < Double.one := Nat.cast_pos.2 Double.one_pos
  have hunits : (x.units : ℚ) = |x.toRat| * Double.one := by
    rw [Double.abs_toRat, div_mul_cancel₀ _ hone.ne']
  rw [readsAs_iff hx]
  refine Double.roundMagnitude_of_close d.denominator_pos ?_
  rw [← Double.units_eq, numerator_div_denominator, hunits]
  generalize (Double.one : ℚ) = k at hone ⊢
  rw [← sub_mul, abs_mul, abs_of_pos hone, mul_right_comm]
  exact mul_lt_mul_of_pos_right h hone

/-- The exact decimal of a double is read as the double. -/
theorem readsAs_exact (hx : x.isFinite = true) (hzero : x.isZero = false) :
    x.exact.readsAs x = true := by
  refine readsAs_of_close hx ?_
  rw [Double.value_exact, sub_self, abs_zero, zero_mul]
  exact Double.abs_toRat_pos hzero

end Decimal

-- ============================================================== the grids

namespace Double

variable (x : Double) (count : Nat)

theorem gridDenominator_pos : 0 < x.gridDenominator count :=
  Nat.mul_pos one_pos (Nat.pow_pos (by decide))

/-- The position of a double on the grid of so many digits. -/
theorem gridNumerator_div :
    (x.gridNumerator count / x.gridDenominator count : ℚ)
      = |x.toRat| / 10 ^ x.gridExponent count := by
  have hnumerator : x.gridNumerator count = x.units * 10 ^ (-x.gridExponent count).toNat := rfl
  have hdenominator : x.gridDenominator count = one * 10 ^ (x.gridExponent count).toNat := rfl
  rw [abs_toRat, Decimal.ten_zpow, hnumerator, hdenominator]
  push_cast
  rw [div_div_div_eq]

/-- A decimal on the grid, by its position. -/
theorem value_onGrid (n : Nat) : (x.onGrid count n).value = n * 10 ^ x.gridExponent count :=
  rfl

/-- The floor is the last position whose decimal is not above the double. -/
theorem le_gridFloor_iff {n : Nat} :
    n ≤ x.gridFloor count ↔ (x.onGrid count n).value ≤ |x.toRat| := by
  have hstep : (0 : ℚ) < 10 ^ x.gridExponent count := zpow_pos (by norm_num) _
  have hnonneg : 0 ≤ |x.toRat| / 10 ^ x.gridExponent count := div_nonneg (abs_nonneg _) hstep.le
  rw [gridFloor, ← Nat.floor_div_eq_div (K := ℚ), gridNumerator_div, Nat.le_floor_iff hnonneg,
    le_div_iff₀ hstep, value_onGrid]

/-- Further on the grid decimals are greater. -/
theorem value_onGrid_mono {m n : Nat} (h : m ≤ n) :
    (x.onGrid count m).value ≤ (x.onGrid count n).value :=
  mul_le_mul_of_nonneg_right (Nat.cast_le.2 h) (zpow_pos (by norm_num) _).le

/-- The nearer neighbour is one of the two. -/
theorem gridNearest_eq :
    x.gridNearest count = x.gridFloor count ∨ x.gridNearest count = x.gridFloor count + 1 := by
  have hge : x.gridFloor count ≤ x.gridNearest count := le_nearestEven _ _
  have hle : x.gridNearest count ≤ x.gridFloor count + 1 := nearestEven_le _ _
  rcases Nat.eq_or_lt_of_le hge with heq | hlt
  · exact .inl heq.symm
  · exact .inr (Nat.le_antisymm hle hlt)

variable {x count}

/-- What is chosen is below, above, or the nearer of the two. -/
theorem chosen?_eq_some {below above nearer d : Decimal} {p q : Bool}
    (h : chosen? below above nearer p q = some d) :
    (p = true ∧ d = below) ∨ (q = true ∧ d = above) ∨ (p = true ∧ q = true ∧ d = nearer) := by
  cases p with
  | true =>
      cases q with
      | true => exact .inr (.inr ⟨rfl, rfl, (Option.some.inj h).symm⟩)
      | false => exact .inl ⟨rfl, (Option.some.inj h).symm⟩
  | false =>
      cases q with
      | true => exact .inr (.inl ⟨rfl, (Option.some.inj h).symm⟩)
      | false => cases h

/-- What is found on a grid reads as the double, and is next to it there. -/
theorem readsAs_of_withDigits? {d : Decimal} (h : x.withDigits? count = some d) :
    d.readsAs x = true ∧ (d = x.onGrid count (x.gridFloor count)
      ∨ d = x.onGrid count (x.gridFloor count + 1)) := by
  unfold withDigits? at h
  rcases chosen?_eq_some h with ⟨hbelow, rfl⟩ | ⟨habove, rfl⟩ | ⟨hbelow, habove, rfl⟩
  · exact ⟨hbelow, .inl rfl⟩
  · exact ⟨habove, .inr rfl⟩
  · rcases gridNearest_eq x count with heq | heq
    · rw [heq]
      exact ⟨hbelow, .inl rfl⟩
    · rw [heq]
      exact ⟨habove, .inr rfl⟩

/-- There is a choice if one of the two reads back. -/
theorem isSome_chosen? {below above nearer : Decimal} {p q : Bool} (h : p = true ∨ q = true) :
    (chosen? below above nearer p q).isSome = true := by
  rcases h with rfl | rfl
  · cases q <;> rfl
  · cases p <;> rfl

-- ======================================================= the first digit

/-- The number of digits of a positive number. -/
theorem exists_length_toDigits {n : Nat} (h : 0 < n) :
    ∃ k, (Nat.toDigits 10 n).length = k + 1 ∧ 10 ^ k ≤ n ∧ n < 10 ^ (k + 1) := by
  obtain ⟨k, hk⟩ : ∃ k, (Nat.toDigits 10 n).length = k + 1 :=
    Nat.exists_eq_succ_of_ne_zero (List.length_pos_of_ne_nil Nat.toDigits_ne_nil).ne'
  refine ⟨k, hk, ?_, (Nat.length_toDigits_le_iff (by decide) k.succ_pos).1 hk.le⟩
  rcases Nat.eq_zero_or_pos k with rfl | hpos
  · exact h
  · refine Nat.le_of_not_lt fun hlt => ?_
    have hle := (Nat.length_toDigits_le_iff (b := 10) (by decide) hpos).2 hlt
    omega

/-- Scaling moves the first digit. -/
theorem zpow_of_length_toDigits {q : ℚ} (hq : 0 ≤ q) {n scale : ℕ}
    (hn : n = ⌊q * 10 ^ scale⌋₊) (hpos : 0 < n) {e : ℤ}
    (he : e = (Nat.toDigits 10 n).length - (scale + 1)) :
    (10 : ℚ) ^ e ≤ q ∧ q < 10 ^ (e + 1) := by
  obtain ⟨k, hlength, hlow, hhigh⟩ := exists_length_toDigits hpos
  have hscaled (j : ℕ) : (10 : ℚ) ^ ((j : ℤ) - scale) * 10 ^ scale = 10 ^ j := by
    rw [← zpow_natCast, ← zpow_add₀ (by norm_num), Int.sub_add_cancel, zpow_natCast]
  have hnonneg : 0 ≤ q * 10 ^ scale := by positivity
  have hpow : (0 : ℚ) < 10 ^ scale := by positivity
  have hlow' : (10 : ℚ) ^ k ≤ q * 10 ^ scale := by
    exact_mod_cast (Nat.le_floor_iff hnonneg).1 (hn ▸ hlow)
  have hhigh' : q * 10 ^ scale < 10 ^ (k + 1) := by
    exact_mod_cast (Nat.floor_lt hnonneg).1 (hn ▸ hhigh)
  rw [← hscaled k] at hlow'
  rw [← hscaled (k + 1)] at hhigh'
  have hfirst : e = (k : ℤ) - scale := by omega
  have hnext : e + 1 = ((k + 1 : ℕ) : ℤ) - scale := by omega
  rw [hnext, hfirst]
  exact ⟨le_of_mul_le_mul_right hlow' hpow, lt_of_mul_lt_mul_right hhigh' hpow.le⟩

/-- The leading exponent is the power of ten of the first digit. -/
theorem leadingExponent_spec (hzero : x.isZero = false) :
    (10 : ℚ) ^ x.leadingExponent ≤ |x.toRat| ∧ |x.toRat| < 10 ^ (x.leadingExponent + 1) := by
  have hscale : one ≤ Nat.pow 10 330 := by decide +kernel
  have hpos : 0 < x.units * Nat.pow 10 330 / one :=
    Nat.div_pos (hscale.trans (Nat.le_mul_of_pos_left _ (units_pos hzero))) one_pos
  refine @zpow_of_length_toDigits _ (abs_nonneg _) _ 330 ?_ hpos _ rfl
  generalize 330 = scale
  have hpow : Nat.pow 10 scale = 10 ^ scale := rfl
  rw [← Nat.floor_div_eq_div (K := ℚ), abs_toRat, hpow]
  push_cast
  rw [mul_div_right_comm]

-- ============================================== decimals beside the grid

/-- Powers of ten lie on the grid. -/
theorem value_onGrid_pow (k : ℕ) :
    (x.onGrid count (10 ^ k)).value = 10 ^ (x.leadingExponent + 1 - count + k) := by
  rw [value_onGrid, gridExponent, Nat.cast_pow, Nat.cast_ofNat, ← zpow_natCast,
    ← zpow_add₀ (by norm_num), sub_add_eq_add_sub, add_comm]

/-- The grid starts at the power of ten of the first digit. -/
theorem value_onGrid_first (hcount : 0 < count) :
    (x.onGrid count (10 ^ (count - 1))).value = 10 ^ x.leadingExponent := by
  have hexponent : x.leadingExponent + 1 - count + (count - 1 : ℕ) = x.leadingExponent := by
    omega
  rw [value_onGrid_pow, hexponent]

/-- It ends at the next power. -/
theorem value_onGrid_last :
    (x.onGrid count (10 ^ count)).value = 10 ^ (x.leadingExponent + 1) := by
  rw [value_onGrid_pow, Int.sub_add_cancel]

/-- The first digit of a double is on the grid, so the position has that many
digits. -/
theorem pow_le_gridFloor (hzero : x.isZero = false) (hcount : 0 < count) :
    10 ^ (count - 1) ≤ x.gridFloor count := by
  rw [le_gridFloor_iff, value_onGrid_first hcount]
  exact (leadingExponent_spec hzero).1

/-- And it has no more. -/
theorem gridFloor_lt_pow (hzero : x.isZero = false) : x.gridFloor count < 10 ^ count := by
  rw [← not_le, le_gridFloor_iff, value_onGrid_last, not_le]
  exact (leadingExponent_spec hzero).2

variable {d : Decimal}

/-- A decimal with so many digits is on the grid, or it is below all that has
the first digit where the double has it. -/
theorem exists_onGrid (h : d.coefficient < 10 ^ count) :
    (∃ n, (x.onGrid count n).value = d.value) ∨ d.value < 10 ^ x.leadingExponent := by
  rcases le_or_gt (x.gridExponent count) d.exponent with hge | hlt
  · obtain ⟨k, hk⟩ := Int.le.dest hge
    refine .inl ⟨d.coefficient * 10 ^ k, ?_⟩
    rw [value_onGrid, Decimal.value, ← hk, zpow_add₀ (by norm_num), zpow_natCast]
    push_cast
    ring
  · refine .inr ?_
    have hcoefficient : (d.coefficient : ℚ) < 10 ^ count := by exact_mod_cast h
    have hstep : (0 : ℚ) < 10 ^ d.exponent := zpow_pos (by norm_num) _
    calc d.value < 10 ^ count * 10 ^ d.exponent := mul_lt_mul_of_pos_right hcoefficient hstep
      _ = 10 ^ (count + d.exponent) := by rw [zpow_add₀ (by norm_num), zpow_natCast]
      _ ≤ 10 ^ x.leadingExponent := zpow_le_zpow_right₀ (by norm_num) (by
        rw [gridExponent] at hlt
        omega)

variable (hx : x.isFinite = true) (hzero : x.isZero = false)

include hx hzero

/-- If any decimal with so many digits reads as the double, one is found on the
grid. -/
theorem isSome_withDigits? (hcount : 0 < count) (hd : d.coefficient < 10 ^ count)
    (h : d.readsAs x = true) : (x.withDigits? count).isSome = true := by
  have hexact := Decimal.readsAs_exact hx hzero
  have hvalue := value_exact x
  unfold withDigits?
  refine isSome_chosen? ?_
  rcases le_or_gt d.value |x.toRat| with hbelow | habove
  · -- a number on the grid stands between the decimal and the double
    obtain ⟨n, hle, hn⟩ : ∃ n, d.value ≤ (x.onGrid count n).value ∧ n ≤ x.gridFloor count := by
      rcases exists_onGrid (x := x) hd with ⟨n, hn⟩ | hlt
      · exact ⟨n, hn.ge, (le_gridFloor_iff _ _).2 (hn.le.trans hbelow)⟩
      · exact ⟨10 ^ (count - 1), hlt.le.trans (value_onGrid_first hcount).ge,
          pow_le_gridFloor hzero hcount⟩
    have hfloor := (le_gridFloor_iff x count).1 (Nat.le_refl _)
    exact .inl (Decimal.readsAs_between hx h hexact (hle.trans (value_onGrid_mono _ _ hn))
      (hfloor.trans hvalue.ge))
  · -- the decimal is on the grid, since it is not below the first digit
    obtain ⟨n, hn⟩ := (exists_onGrid (x := x) hd).resolve_right
      ((leadingExponent_spec hzero).1.trans habove.le).not_gt
    have hgt : x.gridFloor count < n := by
      rw [← not_le, le_gridFloor_iff, hn, not_le]
      exact habove
    have hceiling : |x.toRat| < (x.onGrid count (x.gridFloor count + 1)).value := by
      rw [← not_le, ← le_gridFloor_iff]
      exact Nat.not_succ_le_self _
    exact .inr (Decimal.readsAs_between hx hexact h (hvalue.le.trans hceiling.le)
      ((value_onGrid_mono _ _ hgt).trans hn.le))

-- ========================================================== the search

/-- With seventeen digits the nearer neighbour is close enough. -/
theorem readsAs_gridNearest : (x.onGrid 17 (x.gridNearest 17)).readsAs x = true := by
  obtain ⟨hlow, -⟩ := leadingExponent_spec hzero
  have hnear := abs_nearestEven_sub_le (x.gridNumerator 17) (x.gridDenominator_pos 17)
  have hgrid : x.leadingExponent = x.gridExponent 17 + 16 := by
    rw [gridExponent]
    omega
  have hstep : (0 : ℚ) < 10 ^ x.gridExponent 17 := zpow_pos (by norm_num) _
  rw [hgrid, zpow_add₀ (by norm_num)] at hlow
  rw [gridNumerator_div] at hnear
  refine Decimal.readsAs_of_close hx ?_
  have herror : |((x.onGrid 17 (x.gridNearest 17)).value - |x.toRat|)|
      ≤ 1 / 2 * 10 ^ x.gridExponent 17 := by
    have hscaled : (x.onGrid 17 (x.gridNearest 17)).value - |x.toRat|
        = (x.gridNearest 17 - |x.toRat| / 10 ^ x.gridExponent 17) * 10 ^ x.gridExponent 17 := by
      rw [sub_mul, div_mul_cancel₀ _ hstep.ne', value_onGrid]
    rw [hscaled, abs_mul, abs_of_pos hstep]
    exact mul_le_mul_of_nonneg_right hnear hstep.le
  rw [abs_sub_comm]
  linarith

/-- Seventeen digits are always enough. -/
theorem isSome_withDigits?_seventeen : (x.withDigits? 17).isSome = true := by
  have hnearest := readsAs_gridNearest hx hzero
  unfold withDigits?
  refine isSome_chosen? ?_
  rcases gridNearest_eq x 17 with heq | heq
  · rw [heq] at hnearest
    exact .inl hnearest
  · rw [heq] at hnearest
    exact .inr hnearest

omit hx hzero in
/-- What is found first along the numbers is the value of a number before which
nothing has a value. -/
theorem findSome?_range {α : Type} {f : ℕ → Option α} {n : ℕ} {a : α}
    (h : (List.range n).findSome? f = some a) : ∃ i < n, f i = some a ∧ ∀ j < i, f j = none := by
  induction n with
  | zero => cases h
  | succ n ih =>
      rw [List.range_succ, List.findSome?_append, Option.or_eq_some_iff] at h
      rcases h with h | ⟨hnone, h⟩
      · obtain ⟨i, hi, hfound⟩ := ih h
        exact ⟨i, hi.trans n.lt_succ_self, hfound⟩
      · rw [List.findSome?_singleton] at h
        rw [List.findSome?_eq_none_iff] at hnone
        exact ⟨n, n.lt_succ_self, h, fun j hj => hnone j (List.mem_range.2 hj)⟩

/-- The search ends on the first grid where something is found. -/
theorem shortest_spec :
    ∃ count, 0 < count ∧ x.withDigits? count = some x.shortest
      ∧ ∀ k, 0 < k → k < count → x.withDigits? k = none := by
  have hsome : ((List.range 17).findSome? fun n => x.withDigits? (n + 1)).isSome = true := by
    rw [List.findSome?_isSome_iff]
    exact ⟨16, List.mem_range.2 (by decide), isSome_withDigits?_seventeen hx hzero⟩
  obtain ⟨d, hd⟩ := Option.isSome_iff_exists.1 hsome
  obtain ⟨i, -, hfound, hbefore⟩ := findSome?_range hd
  have hshortest : x.shortest = d := by
    rw [shortest, hd, Option.getD_some]
  refine ⟨i + 1, i.succ_pos, hfound.trans (congrArg some hshortest.symm), fun k hpos hk => ?_⟩
  obtain ⟨j, rfl⟩ := Nat.exists_eq_succ_of_ne_zero hpos.ne'
  exact hbefore j (Nat.lt_of_succ_lt_succ hk)

/-- The shortest decimal is read as its double. -/
theorem readsAs_shortest : x.shortest.readsAs x = true := by
  obtain ⟨count, -, hfound, -⟩ := shortest_spec hx hzero
  exact (readsAs_of_withDigits? hfound).1

end Double

-- ================================================================ digits

namespace Double

/-- A zero at the end makes no difference to trimmed digits. -/
theorem trimmed_toDigits_mul_ten {n : ℕ} (h : 0 < n) :
    trimmed (Nat.toDigits 10 (n * 10)) = trimmed (Nat.toDigits 10 n) := by
  rw [Nat.toDigits_eq_if (by decide), if_neg (by omega), Nat.mul_div_cancel _ (by decide),
    Nat.mul_mod_left, trimmed_concat]
  exact if_pos rfl

/-- Of a power of ten nothing is left but the one. -/
theorem trimmed_toDigits_pow (k : ℕ) : trimmed (Nat.toDigits 10 (10 ^ k)) = ['1'] := by
  induction k with
  | zero => rfl
  | succ k ih => rw [pow_succ, trimmed_toDigits_mul_ten (Nat.pow_pos (by decide)), ih]

end Double

namespace Decimal

variable (d : Decimal)

theorem digits_eq : d.digits = Double.trimmed (Nat.toDigits 10 d.coefficient) :=
  rfl

/-- A decimal from a grid of so many digits has at most so many. -/
theorem length_digits_le {d : Decimal} {count : ℕ} (hcount : 0 < count)
    (h : d.coefficient ≤ 10 ^ count) : d.digits.length ≤ count := by
  rw [digits_eq]
  rcases Nat.eq_or_lt_of_le h with heq | hlt
  · rw [heq, Double.trimmed_toDigits_pow]
    exact hcount
  · exact (Double.length_trimmed_le _).trans
      ((Nat.length_toDigits_le_iff (by decide) hcount).2 hlt)

/-- The same number by its digits, without zeros at the end. -/
def normal : Decimal :=
  ⟨Double.digitsValue d.digits,
    d.exponent + ((Nat.toDigits 10 d.coefficient).length - d.digits.length : ℕ)⟩

/-- The coefficient is the one of the normal form, with the zeros that were
trimmed. -/
theorem coefficient_eq :
    d.coefficient
      = d.normal.coefficient * 10 ^ ((Nat.toDigits 10 d.coefficient).length - d.digits.length) := by
  have hvalue := Double.digitsValue_trimmed (Nat.toDigits 10 d.coefficient)
  rwa [Double.digitsValue_toDigits] at hvalue

/-- The normal form has the same value. -/
theorem value_normal : d.normal.value = d.value := by
  rw [value, value, d.coefficient_eq, normal, zpow_add₀ (by norm_num), zpow_natCast]
  push_cast
  ring

/-- Its coefficient has as many digits as are left. -/
theorem normal_coefficient_lt : d.normal.coefficient < 10 ^ d.digits.length := by
  have hle : d.digits.length ≤ (Nat.toDigits 10 d.coefficient).length :=
    Double.length_trimmed_le _
  have hlt : d.coefficient < 10 ^ (Nat.toDigits 10 d.coefficient).length :=
    (Nat.length_toDigits_le_iff (by decide) (List.length_pos_of_ne_nil Nat.toDigits_ne_nil)).1
      (Nat.le_refl _)
  have hcoefficient := d.coefficient_eq
  obtain ⟨zeros, hzeros⟩ := Nat.exists_eq_add_of_le' hle
  rw [hzeros, Nat.add_sub_cancel] at hcoefficient
  rw [hzeros, pow_add, Nat.mul_comm] at hlt
  exact Nat.lt_of_mul_lt_mul_right (hcoefficient ▸ hlt)

end Decimal

-- ============================================================ the result

namespace Double

variable {x : Double} (hx : x.isFinite = true) (hzero : x.isZero = false)

/-- Zero is rounded to zero. -/
theorem roundMagnitude_zero (d : ℕ) : roundMagnitude 0 d = 0 := by
  have hshift : roundShift 0 d = 0 := by
    rw [roundShift, Nat.zero_div, Nat.log2_zero]
  have hpow : nearestEven 0 (d * 2 ^ 0) = 0 := by
    unfold nearestEven
    dsimp only
    rw [Nat.zero_div, Nat.zero_mod]
    split
    · rfl
    · split <;> omega
  rw [roundMagnitude, hshift, Nat.zero_mul, Nat.zero_add, hpow]

include hx hzero

/-- What reads as a double other than zero has a first digit. -/
theorem coefficient_pos {d : Decimal} (h : d.readsAs x = true) : 0 < d.coefficient := by
  rw [Decimal.readsAs_iff hx] at h
  refine Nat.pos_of_ne_zero fun hcoefficient => ?_
  have hnumerator : d.numerator = 0 := by
    rw [Decimal.numerator, hcoefficient, Nat.zero_mul, Nat.zero_mul]
  rw [hnumerator, roundMagnitude_zero] at h
  exact absurd h.symm (ne_of_beq_false hzero)

/-- No decimal that reads as the double has fewer digits. -/
theorem length_digits_shortest_le {d : Decimal} (h : d.readsAs x = true) :
    x.shortest.digits.length ≤ d.digits.length := by
  obtain ⟨count, hcount, hfound, hbefore⟩ := shortest_spec hx hzero
  have hshortest : x.shortest.digits.length ≤ count := by
    refine Decimal.length_digits_le hcount ?_
    rcases (readsAs_of_withDigits? hfound).2 with heq | heq
    · rw [heq]
      exact (gridFloor_lt_pow hzero).le
    · rw [heq]
      exact gridFloor_lt_pow hzero
  refine hshortest.trans (Nat.le_of_not_lt fun hlt => ?_)
  have hnormal : d.normal.readsAs x = true := Decimal.readsAs_of_value_eq hx h d.value_normal
  have hpos : 0 < d.digits.length := by
    refine Nat.pos_of_ne_zero fun hnil => ?_
    have hcoefficient := coefficient_pos hx hzero hnormal
    have hone := d.normal_coefficient_lt
    rw [hnil, pow_zero] at hone
    omega
  have hsome := isSome_withDigits? hx hzero hpos d.normal_coefficient_lt hnormal
  rw [hbefore _ hpos hlt] at hsome
  cases hsome

/-- The shortest decimal is in the same decade as the double, or it is the power
of ten above it. -/
theorem value_shortest_bounds :
    (10 : ℚ) ^ x.leadingExponent ≤ x.shortest.value
      ∧ x.shortest.value ≤ 10 ^ (x.leadingExponent + 1) := by
  obtain ⟨count, hcount, hfound, -⟩ := shortest_spec hx hzero
  have hfloor : 10 ^ (count - 1) ≤ x.gridFloor count := pow_le_gridFloor hzero hcount
  have hceiling : x.gridFloor count < 10 ^ count := gridFloor_lt_pow hzero
  have hlast : (x.onGrid count (10 ^ count)).value = 10 ^ (x.leadingExponent + 1) :=
    value_onGrid_last
  rw [← value_onGrid_first hcount, ← hlast]
  rcases (readsAs_of_withDigits? hfound).2 with heq | heq
  · rw [heq]
    exact ⟨value_onGrid_mono _ _ hfloor, value_onGrid_mono _ _ hceiling.le⟩
  · rw [heq]
    exact ⟨value_onGrid_mono _ _ (hfloor.trans (Nat.le_succ _)), value_onGrid_mono _ _ hceiling⟩

end Double

end Lox

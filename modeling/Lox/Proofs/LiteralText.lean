/-
The text of a number literal keeps the value.

# What a text denotes

`Double.denoted?` reads a text by the grammar of numerals as a sign and a
rational number, without rounding. The sign is kept apart from the number
since zero has both.

# The two texts

A double has one shortest decimal. The literal text and the shortest text lay
out its digits in different ways: with a point among them or outside them, or
as a first digit, a point, the others and an exponent. The text of a number in
the first way is `PlainDecimal.pointed`, and in the second way the same for the
digits with the point behind the first of them. Either way the text denotes
the decimal (`Double.exists_decimal`), which reads as the double. So the reader of
numbers gives the double back (`Double.ofText?_literalText`), and different
doubles have different texts.
-/
import Lox.Proofs.Equality
import Lox.Proofs.ReadBack
import Lox.Proofs.Shortest

namespace Lox

-- ================================================================ digits

namespace Double

/-- Digits with no zero that could be left out at either end. -/
structure IsSignificant (digits : List Char) : Prop where
  ne_nil : digits ≠ []
  isDigit : digits.all isDigit = true
  head : digits.head? ≠ some '0'
  last : digits.getLast? ≠ some '0'

end Double

/-- The digits of a decimal begin and end with something other than zero. -/
theorem Decimal.isSignificant_digits {d : Decimal} (h : 0 < d.coefficient) :
    Double.IsSignificant d.digits := by
  have hne : d.digits ≠ [] := by
    intro hnil
    have hlt := d.normal_coefficient_lt
    rw [hnil, List.length_nil, pow_zero, Nat.lt_one_iff] at hlt
    rw [d.coefficient_eq, hlt, Nat.zero_mul] at h
    exact Nat.lt_irrefl 0 h
  refine ⟨hne, Double.all_trimmed (Double.all_toDigits _), fun hhead => h.ne' ?_,
    Double.getLast?_trimmed _⟩
  obtain ⟨k, hk⟩ := Double.trimmed_append_zeros (Nat.toDigits 10 d.coefficient)
  rw [← d.digits_eq] at hk
  refine Double.head_toDigits _ ?_
  rw [hk, List.head?_append_of_ne_nil _ hne, hhead]

-- ================================================= the place of the point

namespace PlainDecimal

variable {digits : List Char} (h : Double.IsSignificant digits)

/-- A decimal with at least one digit after the point, a zero if there is no
other. -/
def pointed {places : Nat} (d : PlainDecimal places) : List Char :=
  d.whole ++ '.' :: (if d.fraction.isEmpty then ['0'] else d.fraction)

/-- A decimal with a point starts with a digit, and every character in it is
plain. -/
theorem exists_pointed_eq {places : Nat} (d : PlainDecimal places) :
    ∃ c cs, d.pointed = c :: cs ∧ Double.isDigit c = true ∧ ∀ c' ∈ cs, Double.IsPlain c' := by
  obtain ⟨c, cs, hwhole⟩ := List.exists_cons_of_ne_nil d.whole_ne_nil
  have hdigits := d.isDigit_whole
  rw [hwhole, List.all_cons, Bool.and_eq_true, List.all_eq_true] at hdigits
  have hfraction := List.all_eq_true.1 d.isDigit_fraction
  refine ⟨c, cs ++ '.' :: (if d.fraction.isEmpty then ['0'] else d.fraction),
    by rw [pointed, hwhole, List.cons_append], hdigits.1, fun c' hc' => ?_⟩
  rw [List.mem_append, List.mem_cons] at hc'
  rcases hc' with hc' | rfl | hc'
  · exact .inl (hdigits.2 c' hc')
  · exact .inr (by decide)
  · split at hc'
    · rw [List.mem_singleton.1 hc']
      exact .inl rfl
    · exact .inl (hfraction c' hc')

/-- The point behind some of the digits, or behind all of them and zeros. -/
def within {k : Nat} (hk : 0 < k) : PlainDecimal digits.length where
  whole := digits.take k ++ List.replicate (k - digits.length) '0'
  fraction := digits.drop k
  whole_ne_nil := by
    have hne := h.ne_nil
    simp [hne, hk.ne']
  isDigit_whole := by
    have hdigits := List.all_eq_true.1 h.isDigit
    rw [List.all_append, Bool.and_eq_true, List.all_eq_true, List.all_replicate]
    exact ⟨fun c hc => hdigits c (List.mem_of_mem_take hc), by simp [Double.isDigit]⟩
  isDigit_fraction := by
    have hdigits := List.all_eq_true.1 h.isDigit
    exact List.all_eq_true.2 fun c hc => hdigits c (List.mem_of_mem_drop hc)
  head_whole hhead := by
    have hne : digits.take k ≠ [] := by
      have hne := h.ne_nil
      simp [hne, hk.ne']
    rw [List.head?_append_of_ne_nil _ hne, List.head?_take, if_neg hk.ne'] at hhead
    exact absurd hhead h.head
  last_fraction := by
    rw [List.getLast?_drop]
    split
    · exact fun hnone => by cases hnone
    · exact h.last
  length_fraction := (List.length_drop ..).trans_le (Nat.sub_le _ _)

/-- The point before zeros and the digits. -/
def behind (zeros : Nat) : PlainDecimal (zeros + digits.length) where
  whole := ['0']
  fraction := List.replicate zeros '0' ++ digits
  whole_ne_nil := List.cons_ne_nil _ _
  isDigit_whole := rfl
  isDigit_fraction := by
    rw [List.all_append, List.all_replicate, h.isDigit, Bool.and_true]
    simp [Double.isDigit]
  head_whole _ := rfl
  last_fraction := by
    rw [List.getLast?_append_of_ne_nil _ h.ne_nil]
    exact h.last
  length_fraction := by
    rw [List.length_append, List.length_replicate]

/-- The value of digits with the point inside or behind them. -/
theorem value_within {k : Nat} (hk : 0 < k) :
    (within h hk).value = Double.digitsValue digits * 10 ^ ((k : ℤ) - digits.length) := by
  show (Double.digitsValue (digits.take k ++ List.replicate (k - digits.length) '0') : ℚ)
    + Double.digitsValue (digits.drop k) / 10 ^ (digits.drop k).length = _
  rcases Nat.le_total k digits.length with hle | hge
  · have hvalue := Double.digitsValue_append (digits.take k) (digits.drop k)
    rw [List.take_append_drop, List.length_drop] at hvalue
    have hexponent : (k : ℤ) - digits.length = -((digits.length - k : ℕ) : ℤ) := by omega
    rw [Nat.sub_eq_zero_of_le hle, List.replicate_zero, List.append_nil, List.length_drop, hvalue,
      hexponent, zpow_neg, zpow_natCast]
    push_cast
    field_simp
  · have hexponent : (k : ℤ) - digits.length = ((k - digits.length : ℕ) : ℤ) := by omega
    rw [List.take_of_length_le hge, List.drop_of_length_le hge, Double.digitsValue_append,
      Double.digitsValue_zeros, List.length_replicate, hexponent, zpow_natCast]
    simp [Double.digitsValue, mul_comm]

/-- The value of digits behind the point, after some zeros. -/
theorem value_behind (zeros : Nat) :
    (behind h zeros).value
      = Double.digitsValue digits * 10 ^ (-(zeros : ℤ) - digits.length) := by
  have hexponent : -(zeros : ℤ) - digits.length = -((zeros + digits.length : ℕ) : ℤ) := by omega
  show (Double.digitsValue ['0'] : ℚ) + Double.digitsValue (List.replicate zeros '0' ++ digits)
    / 10 ^ (List.replicate zeros '0' ++ digits).length = _
  rw [Double.digitsValue_append, Double.digitsValue_zeros, List.length_append,
    List.length_replicate, Nat.mul_zero, Nat.zero_add, hexponent, zpow_neg, zpow_natCast,
    show Double.digitsValue ['0'] = 0 from rfl, Nat.cast_zero, zero_add, div_eq_mul_inv]

include h

/-- Digits with a point set among them or outside them. -/
theorem exists_positional (point : ℤ) :
    ∃ (places : Nat) (d : PlainDecimal places), d.pointed = Double.positional digits point
      ∧ d.value = Double.digitsValue digits * 10 ^ (point - digits.length) := by
  rcases le_or_gt point 0 with hle | hgt
  · refine ⟨_, behind h (-point).toNat, ?_, ?_⟩
    · have hne : (List.replicate (-point).toNat '0' ++ digits).isEmpty = false := by
        simpa using fun _ => h.ne_nil
      rw [Double.positional, if_pos hle, pointed]
      simp only [behind, hne, Bool.false_eq_true, if_false]
      rfl
    · rw [value_behind, Int.toNat_of_nonneg (by omega), neg_neg]
  · have hpoint : 0 < point.toNat := by omega
    refine ⟨_, within h hpoint, ?_, ?_⟩
    · rw [Double.positional, if_neg hgt.not_ge]
      rfl
    · rw [value_within, Int.toNat_of_nonneg hgt.le]

/-- Digits with the point behind the first of them. -/
theorem exists_leading :
    ∃ d : PlainDecimal digits.length, (∃ c, d.whole = [c] ∧ c ≠ '0')
      ∧ d.pointed = Double.leadingDigit digits ['.', '0']
      ∧ d.chars = Double.leadingDigit digits []
      ∧ d.value = Double.digitsValue digits * 10 ^ (1 - digits.length : ℤ) := by
  obtain ⟨c, cs, hcs⟩ := List.exists_cons_of_ne_nil h.ne_nil
  have hwhole : (within h Nat.one_pos).whole = digits.take 1 := by
    show digits.take 1 ++ List.replicate (1 - digits.length) '0' = digits.take 1
    rw [Nat.sub_eq_zero_of_le (List.length_pos_of_ne_nil h.ne_nil), List.replicate_zero,
      List.append_nil]
  refine ⟨within h Nat.one_pos, ⟨c, ?_, ?_⟩, ?_, ?_, value_within h Nat.one_pos⟩
  · rw [hwhole, hcs]
    rfl
  · rintro rfl
    exact h.head (by rw [hcs]; rfl)
  · rw [pointed, hwhole, Double.leadingDigit]
    show digits.take 1 ++ '.' :: (if (digits.drop 1).isEmpty then ['0'] else digits.drop 1) = _
    split <;> rfl
  · rw [chars, hwhole, Double.leadingDigit]
    rfl

end PlainDecimal

-- ================================================== what a text denotes

namespace Double

/-- The sign and the number that a numeral denotes, without rounding. -/
def denoted? (s : String) : Option (Bool × ℚ) :=
  let (negative, body) := takeSign s.toList
  (numeral? body).map fun d => (negative, d.value)

/-- A sign is taken off again, and only a sign. -/
theorem takeSign_cons {c : Char} (cs : List Char) (h : isDigit c = true) (negative : Bool) :
    takeSign (signed negative (c :: cs)).toList = (negative, c :: cs) := by
  rw [signed, String.toList_ofList]
  cases negative with
  | false => exact takeSign_digit h
  | true => rfl

/-- A sign and digits before whatever else. -/
theorem denoted?_signed {whole tail : List Char} {d : Decimal} (hne : whole ≠ [])
    (h : whole.all isDigit = true) (negative : Bool) (hd : numeral? (whole ++ tail) = some d) :
    denoted? (signed negative (whole ++ tail)) = some (negative, d.value) := by
  obtain ⟨c, cs, rfl⟩ := List.exists_cons_of_ne_nil hne
  rw [List.all_cons, Bool.and_eq_true] at h
  rw [List.cons_append] at hd ⊢
  rw [denoted?, takeSign_cons _ h.1]
  dsimp only
  rw [hd, Option.map_some]

/-- The value of a whole part, a fraction and an exponent. -/
theorem value_digits (whole fraction : List Char) (e : ℤ) :
    Decimal.value ⟨digitsValue (whole ++ fraction), e - fraction.length⟩
      = (digitsValue whole + digitsValue fraction / 10 ^ fraction.length) * 10 ^ e := by
  rw [Decimal.value, digitsValue_append, zpow_sub₀ (by norm_num), zpow_natCast]
  push_cast
  field_simp

end Double

namespace PlainDecimal

variable {places : Nat} (d : PlainDecimal places) (negative : Bool) {tail : List Char} {e : ℤ}

/-- A decimal with a point denotes its value, scaled by the exponent behind
it. -/
theorem denoted?_pointed (htail : Double.exponent? tail = some e) (he : e.natAbs ≤ 400) :
    Double.denoted? (Double.signed negative (d.pointed ++ tail))
      = some (negative, d.value * 10 ^ e) := by
  obtain ⟨fraction, hfraction⟩ : ∃ cs, cs = if d.fraction.isEmpty then ['0'] else d.fraction :=
    ⟨_, rfl⟩
  have hdigits : fraction.all Double.isDigit = true := by
    rw [hfraction]
    split
    · rfl
    · exact d.isDigit_fraction
  have hvalue : (Double.digitsValue fraction / 10 ^ fraction.length : ℚ)
      = Double.digitsValue d.fraction / 10 ^ d.fraction.length := by
    rw [hfraction]
    split
    · next hempty =>
        rw [List.isEmpty_iff.1 hempty]
        norm_num [Double.digitsValue]
    · rfl
  have hnumeral := Double.numeral?_point_exponent d.whole_ne_nil d.isDigit_whole hdigits htail he
  rw [pointed, ← hfraction, List.append_assoc, List.cons_append,
    Double.denoted?_signed d.whole_ne_nil d.isDigit_whole negative hnumeral, Double.value_digits,
    hvalue, value]

/-- Likewise without a point, if there are no digits behind it. -/
theorem denoted?_chars (htail : Double.exponent? tail = some e) (he : e.natAbs ≤ 400) :
    Double.denoted? (Double.signed negative (d.chars ++ tail))
      = some (negative, d.value * 10 ^ e) := by
  rw [chars, List.append_assoc]
  cases hfraction : d.fraction with
  | nil =>
      have hnumeral := Double.numeral?_whole_exponent d.whole_ne_nil d.isDigit_whole htail he
      rw [value, hfraction]
      refine (Double.denoted?_signed d.whole_ne_nil d.isDigit_whole negative hnumeral).trans ?_
      norm_num [Decimal.value, Double.digitsValue]
  | cons c cs =>
      have hdigits := d.isDigit_fraction
      rw [hfraction] at hdigits
      have hnumeral :=
        Double.numeral?_point_exponent d.whole_ne_nil d.isDigit_whole hdigits htail he
      rw [value, hfraction]
      refine (Double.denoted?_signed d.whole_ne_nil d.isDigit_whole negative hnumeral).trans ?_
      rw [Double.value_digits]

end PlainDecimal

-- ============================================================= exponents

namespace Double

/-- An exponent is read from its mark, its sign and its digits. -/
theorem exponent?_mark {mark : Char} {rest digits : List Char} {negative : Bool}
    (hmark : mark = 'e' ∨ mark = 'E') (hrest : takeSign rest = (negative, digits))
    (hne : digits ≠ []) (hdigits : digits.all isDigit = true) :
    exponent? (mark :: rest)
      = some (if negative then -(digitsValue digits : ℤ) else digitsValue digits) := by
  have hempty : digits.isEmpty = false := by simpa using hne
  have hmarked : (decide (mark = 'e') || decide (mark = 'E')) = true := by simpa using hmark
  unfold exponent?
  simp only [hrest, hmarked, hempty, hdigits]
  rfl

/-- The exponent of the literal text. -/
theorem exponent?_wholeText (e : ℤ) : exponent? ('E' :: (wholeText e).toList) = some e := by
  obtain ⟨c, cs, hcs⟩ := List.exists_cons_of_ne_nil (Nat.toDigits_ne_nil (b := 10) (n := e.natAbs))
  have hdigit : isDigit c = true := isDigit_of_mem_toDigits (hcs ▸ List.mem_cons_self ..)
  have hsign := takeSign_cons cs hdigit (decide (e < 0))
  rw [← hcs] at hsign
  rw [wholeText, exponent?_mark (.inr rfl) hsign Nat.toDigits_ne_nil (all_toDigits _),
    digitsValue_toDigits]
  simp only [decide_eq_true_eq, Option.some.injEq]
  omega

/-- A whole number is written with digits and a minus sign. -/
theorem mem_wholeText {e : ℤ} {c : Char} (h : c ∈ (wholeText e).toList) :
    isDigit c = true ∨ c = '-' := by
  rw [wholeText, signed, String.toList_ofList] at h
  split at h
  · exact (List.mem_cons.1 h).symm.imp_left isDigit_of_mem_toDigits
  · exact .inl (isDigit_of_mem_toDigits h)

/-- The exponent of the shortest text. -/
theorem exponent?_paddedExponent (e : ℤ) : exponent? ('e' :: paddedExponent e) = some e := by
  have hsign : takeSign (paddedExponent e) = (decide (e < 0), padded 2 e.natAbs) := by
    unfold paddedExponent
    dsimp only
    split
    · next hneg => rw [decide_eq_true hneg]; rfl
    · next hneg => rw [decide_eq_false hneg]; rfl
  have hne : padded 2 e.natAbs ≠ [] := List.append_ne_nil_of_right_ne_nil _ Nat.toDigits_ne_nil
  rw [exponent?_mark (.inl rfl) hsign hne (all_padded _ _), digitsValue_padded]
  simp only [decide_eq_true_eq, Option.some.injEq]
  omega

end Double

-- ====================================================== the first digit

namespace Decimal

variable {d : Decimal} (h : 0 < d.coefficient)

include h

/-- The point stands where the power of ten of the first digit says. -/
theorem point_spec : (10 : ℚ) ^ (d.point - 1) ≤ d.value ∧ d.value < 10 ^ d.point := by
  obtain ⟨k, hlength, hlow, hhigh⟩ := Double.exists_length_toDigits h
  have hpoint : d.point = (k + 1 : ℕ) + d.exponent := by rw [point, hlength]
  have hfirst : d.point - 1 = k + d.exponent := by omega
  have hstep : (0 : ℚ) < 10 ^ d.exponent := zpow_pos (by norm_num) _
  rw [hfirst, hpoint, zpow_add₀ (by norm_num), zpow_add₀ (by norm_num), zpow_natCast,
    zpow_natCast, value]
  exact ⟨mul_le_mul_of_nonneg_right (by exact_mod_cast hlow) hstep.le,
    mul_lt_mul_of_pos_right (by exact_mod_cast hhigh) hstep⟩

omit h in
/-- The value of a decimal by its digits and the place of its point. -/
theorem value_eq_digits :
    d.value = Double.digitsValue d.digits * 10 ^ (d.point - d.digits.length) := by
  have hle : d.digits.length ≤ (Nat.toDigits 10 d.coefficient).length :=
    Double.length_trimmed_le _
  have hexponent : d.normal.exponent = d.point - d.digits.length := by
    show d.exponent + ((Nat.toDigits 10 d.coefficient).length - d.digits.length : ℕ) = _
    rw [point]
    omega
  rw [← d.value_normal, value, hexponent]
  rfl

end Decimal

namespace Double

variable {x : Double}

/-- A magnitude below a power of ten, seen in units. -/
theorem abs_toRat_lt_pow {k : ℕ} (h : x.units < one * 10 ^ k) : |x.toRat| < 10 ^ (k : ℤ) := by
  have hone : (0 : ℚ) < one := Nat.cast_pos.2 one_pos
  rw [abs_toRat, div_lt_iff₀ hone, zpow_natCast, mul_comm]
  exact_mod_cast h

/-- A magnitude from a negative power of ten on, seen in units. -/
theorem pow_le_abs_toRat {k : ℕ} (h : one ≤ x.units * 10 ^ k) :
    (10 : ℚ) ^ (-(k : ℤ)) ≤ |x.toRat| := by
  have hone : (0 : ℚ) < one := Nat.cast_pos.2 one_pos
  have hpow : (0 : ℚ) < 10 ^ k := by positivity
  rw [abs_toRat, zpow_neg, zpow_natCast, inv_le_iff_one_le_mul₀ hpow, div_mul_eq_mul_div,
    one_le_div hone]
  exact_mod_cast h

/-- Doubles have at most three hundred and nine digits before the point, and
at most three hundred and twenty-nine zeros after it. -/
theorem leadingExponent_bounds (hx : x.isFinite = true) (hzero : x.isZero = false) :
    -330 ≤ x.leadingExponent ∧ x.leadingExponent ≤ 308 := by
  obtain ⟨hlow, hhigh⟩ := leadingExponent_spec hzero
  have hsmall : (10 : ℚ) ^ (-((330 : ℕ) : ℤ)) ≤ |x.toRat| := by
    have hscale : one ≤ 10 ^ 330 := by decide +kernel
    exact pow_le_abs_toRat (hscale.trans (Nat.le_mul_of_pos_left _ (units_pos hzero)))
  have hlarge : |x.toRat| < 10 ^ ((309 : ℕ) : ℤ) :=
    abs_toRat_lt_pow <| (units_lt_one_mul x (k := 971) (exponent_le_of_isFinite hx)).trans_le <|
      Nat.mul_le_mul_left _ (by decide +kernel)
  have hmin := (zpow_lt_zpow_iff_right₀ (by norm_num)).1 (hsmall.trans_lt hhigh)
  have hmax := (zpow_lt_zpow_iff_right₀ (by norm_num)).1 (hlow.trans_lt hlarge)
  omega

/-- The first digit of the shortest decimal stands where that of the double
does, or one place before it. -/
theorem point_shortest_bounds (hx : x.isFinite = true) (hzero : x.isZero = false) :
    x.leadingExponent ≤ x.shortest.point - 1 ∧ x.shortest.point ≤ x.leadingExponent + 2 := by
  have hpos := coefficient_pos hx hzero (readsAs_shortest hx hzero)
  obtain ⟨hlow, hhigh⟩ := value_shortest_bounds hx hzero
  obtain ⟨hfirst, hnext⟩ := Decimal.point_spec hpos
  have hmin := (zpow_lt_zpow_iff_right₀ (by norm_num)).1 (hlow.trans_lt hnext)
  have hmax := (zpow_le_zpow_iff_right₀ (by norm_num)).1 (hfirst.trans hhigh)
  omega

end Double

-- ===================================================== digits laid out

namespace Decimal

variable {d : Decimal} (h : 0 < d.coefficient) (negative : Bool)

include h

/-- Written in positions, digits denote the value of their decimal. -/
theorem denoted?_positional :
    Double.denoted? (Double.signed negative (Double.positional d.digits d.point))
      = some (negative, d.value) := by
  obtain ⟨places, p, htext, hvalue⟩ :=
    PlainDecimal.exists_positional (isSignificant_digits h) d.point
  have hdenoted := p.denoted?_pointed negative Double.exponent?_nil (Nat.zero_le _)
  rwa [List.append_nil, zpow_zero, mul_one, htext, hvalue, ← value_eq_digits] at hdenoted

omit h in
/-- The exponent of the first digit scales a decimal that has the point behind
it. -/
theorem leading_mul_zpow :
    (Double.digitsValue d.digits * 10 ^ (1 - d.digits.length : ℤ) * 10 ^ (d.point - 1) : ℚ)
      = d.value := by
  rw [mul_assoc, ← zpow_add₀ (by norm_num), sub_add_sub_cancel', ← value_eq_digits]

/-- So they do with an exponent, in either way of writing it. -/
theorem denoted?_scientific (he : (d.point - 1).natAbs ≤ 400) :
    Double.denoted? (Double.signed negative (Double.leadingDigit d.digits ['.', '0']
        ++ 'E' :: (Double.wholeText (d.point - 1)).toList)) = some (negative, d.value)
      ∧ Double.denoted? (Double.signed negative (Double.leadingDigit d.digits []
        ++ 'e' :: Double.paddedExponent (d.point - 1))) = some (negative, d.value) := by
  obtain ⟨p, -, hpointed, hchars, hvalue⟩ :=
    PlainDecimal.exists_leading (isSignificant_digits h)
  rw [← hpointed, ← hchars, p.denoted?_pointed negative (Double.exponent?_wholeText _) he,
    p.denoted?_chars negative (Double.exponent?_paddedExponent _) he, hvalue, leading_mul_zpow]
  exact ⟨rfl, rfl⟩

end Decimal

-- ============================================================= the texts

namespace Double

variable {x : Double}

/-- What is not finite is not a number or is infinite. -/
theorem isNaN_or_isInfinite (hx : x.isFinite = false) : x.isNaN = true ∨ x.isInfinite = true := by
  have hmagnitude : infinityBits ≤ x.magnitude := Nat.le_of_not_lt (of_decide_eq_false hx)
  rcases Nat.eq_or_lt_of_le hmagnitude with heq | hlt
  · exact .inr (beq_iff_eq.2 heq.symm)
  · exact .inl (decide_eq_true hlt)

/-- The text of a double by its shortest digits: positional if the first of them
stands for a power of ten from -4 to 15, scientific otherwise. -/
def shortestText (x : Double) : String :=
  if x.isNaN then "nan"
  else if x.isInfinite then signed x.isNegative "inf".toList
  else if x.isZero then signed x.isNegative ['0', '.', '0']
  else
    let d := x.shortest
    let e := d.point - 1
    if -4 ≤ e && e < 16 then signed x.isNegative (positional d.digits d.point)
    else signed x.isNegative (leadingDigit d.digits [] ++ 'e' :: paddedExponent e)

theorem units_of_isZero (hzero : x.isZero = true) : x.units = 0 := by
  rw [units_eq, eq_of_beq hzero]
  rfl

/-- The magnitudes whose literal text is written without an exponent. -/
def InPlainRange (x : Double) : Prop :=
  1 / 1000 ≤ |x.toRat| ∧ |x.toRat| < 10 ^ 7

/-- A double denotes zero exactly if it is a zero. -/
theorem toRat_eq_zero_iff : x.toRat = 0 ↔ x.isZero = true := by
  rw [← abs_eq_zero]
  constructor
  · intro habs
    by_contra hzero
    exact (abs_toRat_pos (Bool.eq_false_iff.2 hzero)).ne' habs
  · intro hzero
    rw [abs_toRat, units_of_isZero hzero, Nat.cast_zero, zero_div]

/-- From its lower end on, the plain range is the magnitudes of a thousandth and
more. -/
theorem plainLow_le_iff (m : ℕ) : plainLow.magnitude ≤ m ↔ one ≤ 1000 * unitsAt m := by
  constructor
  · intro h
    have hlow : one ≤ 1000 * unitsAt plainLow.magnitude := by decide +kernel
    exact hlow.trans (Nat.mul_le_mul_left _ (strictMono_unitsAt.monotone h))
  · intro h
    -- the double below is too small
    have hbelow : 1000 * unitsAt (plainLow.magnitude - 1) < one := by decide +kernel
    by_contra hlt
    have hle : unitsAt m ≤ unitsAt (plainLow.magnitude - 1) :=
      strictMono_unitsAt.monotone (Nat.le_sub_one_of_lt (Nat.lt_of_not_le hlt))
    exact (h.trans (Nat.mul_le_mul_left _ hle)).not_gt hbelow

/-- And it ends below ten million. -/
theorem lt_plainHigh_iff (m : ℕ) : m < plainHigh.magnitude ↔ unitsAt m < 10 ^ 7 * one := by
  have hhigh : unitsAt plainHigh.magnitude = 10 ^ 7 * one := by decide +kernel
  rw [← hhigh, strictMono_unitsAt.lt_iff_lt]

/-- The range between the two doubles is the one between the two numbers. -/
theorem inPlainRange_iff :
    x.InPlainRange ↔ plainLow.magnitude ≤ x.magnitude ∧ x.magnitude < plainHigh.magnitude := by
  have hone : (0 : ℚ) < one := Nat.cast_pos.2 one_pos
  rw [plainLow_le_iff, lt_plainHigh_iff, ← units_eq, InPlainRange, abs_toRat,
    div_le_div_iff₀ (by norm_num) hone, div_lt_iff₀ hone, one_mul, mul_comm (x.units : ℚ)]
  exact_mod_cast Iff.rfl

section layout

variable (hx : x.isFinite = true)

include hx

theorem isNaN_of_isFinite : x.isNaN = false :=
  decide_eq_false (of_decide_eq_true hx : x.magnitude < infinityBits).not_gt

theorem isInfinite_of_isFinite : x.isInfinite = false :=
  beq_false_of_ne (of_decide_eq_true hx : x.magnitude < infinityBits).ne

/-- Both texts of a zero are `0.0` with its sign. -/
theorem texts_zero (hzero : x.isZero = true) :
    x.shortestText = signed x.isNegative ['0', '.', '0']
      ∧ x.literalText = signed x.isNegative ['0', '.', '0'] := by
  rw [shortestText, literalText, isNaN_of_isFinite hx, isInfinite_of_isFinite hx, hzero]
  simp only [Bool.false_eq_true, if_false, if_true, and_self]

variable (hzero : x.isZero = false)

include hzero

/-- The shortest digits begin and end with something other than zero. -/
theorem isSignificant_shortest : IsSignificant x.shortest.digits :=
  Decimal.isSignificant_digits (coefficient_pos hx hzero (readsAs_shortest hx hzero))

/-- How a number other than zero is written by its shortest digits. -/
theorem shortestText_eq :
    x.shortestText
      = if -4 ≤ x.shortest.point - 1 && x.shortest.point - 1 < 16 then
          signed x.isNegative (positional x.shortest.digits x.shortest.point)
        else
          signed x.isNegative (leadingDigit x.shortest.digits []
            ++ 'e' :: paddedExponent (x.shortest.point - 1)) := by
  rw [shortestText, isNaN_of_isFinite hx, isInfinite_of_isFinite hx, hzero]
  simp only [Bool.false_eq_true, if_false]

theorem literalText_of_plain (hplain : x.InPlainRange) :
    x.literalText = signed x.isNegative (positional x.shortest.digits x.shortest.point) := by
  rw [inPlainRange_iff, ← decide_eq_true_iff (p := _ ∧ _), Bool.decide_and] at hplain
  rw [literalText, isNaN_of_isFinite hx, isInfinite_of_isFinite hx, hzero]
  simp only [Bool.false_eq_true, if_false, hplain, if_true]

theorem literalText_of_scientific (hplain : ¬ x.InPlainRange) :
    x.literalText
      = signed x.isNegative (leadingDigit x.shortest.digits ['.', '0']
          ++ 'E' :: (wholeText (x.shortest.point - 1)).toList) := by
  rw [inPlainRange_iff, ← decide_eq_true_iff (p := _ ∧ _), Bool.decide_and] at hplain
  rw [literalText, isNaN_of_isFinite hx, isInfinite_of_isFinite hx, hzero]
  simp only [Bool.false_eq_true, if_false, hplain]

/-- In the plain range both texts are positional. -/
theorem literalText_eq_shortestText (hplain : x.InPlainRange) :
    x.literalText = x.shortestText := by
  obtain ⟨hlow, hhigh⟩ := leadingExponent_spec hzero
  have hsmall : (10 : ℚ) ^ (-3 : ℤ) ≤ |x.toRat| := by
    refine le_trans ?_ hplain.1
    norm_num
  have hlarge : |x.toRat| < 10 ^ (7 : ℤ) := hplain.2
  have hmin := (zpow_lt_zpow_iff_right₀ (by norm_num)).1 (hsmall.trans_lt hhigh)
  have hmax := (zpow_lt_zpow_iff_right₀ (by norm_num)).1 (hlow.trans_lt hlarge)
  obtain ⟨hfirst, hlast⟩ := point_shortest_bounds hx hzero
  have hwindow : (-4 ≤ x.shortest.point - 1 && x.shortest.point - 1 < 16) = true := by
    rw [Bool.and_eq_true, decide_eq_true_iff, decide_eq_true_iff]
    omega
  rw [literalText_of_plain hx hzero hplain, shortestText_eq hx hzero, if_pos hwindow]

end layout

-- ========================================================== the two forms

variable (hx : x.isFinite = true)

include hx

/-- A zero, and what is in the plain range, is written without an exponent. -/
theorem literalText_plain (hplain : x.toRat = 0 ∨ x.InPlainRange) :
    x.literalText = x.shortestText
      ∧ ∃ (places : Nat) (p : PlainDecimal places),
        x.literalText = signed x.isNegative p.pointed := by
  rcases hzero : x.isZero with _ | _
  · have hrange := hplain.resolve_left fun h => by
      rw [toRat_eq_zero_iff, hzero] at h
      cases h
    obtain ⟨places, p, htext, -⟩ := PlainDecimal.exists_positional
      (isSignificant_shortest hx hzero) x.shortest.point
    refine ⟨literalText_eq_shortestText hx hzero hrange, places, p, ?_⟩
    rw [literalText_of_plain hx hzero hrange, htext]
  · obtain ⟨hshortest, hliteral⟩ := texts_zero hx hzero
    exact ⟨hliteral.trans hshortest.symm, 1, .ofUnits Nat.one_pos 0, hliteral⟩

/-- All else is written with an exponent and one digit before the point. -/
theorem literalText_scientific (hplain : ¬ (x.toRat = 0 ∨ x.InPlainRange)) :
    ∃ (places : Nat) (p : PlainDecimal places) (c : Char) (e : ℤ),
      p.whole = [c] ∧ c ≠ '0'
        ∧ x.literalText = signed x.isNegative (p.pointed ++ 'E' :: (wholeText e).toList) := by
  have hzero : x.isZero = false := by
    rw [← Bool.not_eq_true, ← toRat_eq_zero_iff]
    exact fun h => hplain (.inl h)
  obtain ⟨p, ⟨c, hwhole, hc⟩, htext, -⟩ :=
    PlainDecimal.exists_leading (isSignificant_shortest hx hzero)
  refine ⟨_, p, c, x.shortest.point - 1, hwhole, hc, ?_⟩
  rw [literalText_of_scientific hx hzero fun h => hplain (.inr h), htext]

/-- The text has a sign or none, a digit, and then digits, a point, and perhaps
the mark and the sign of an exponent. -/
theorem exists_literalText_eq :
    ∃ c cs, x.literalText = signed x.isNegative (c :: cs) ∧ isDigit c = true
      ∧ ∀ d ∈ cs, IsPlain d := by
  by_cases hplain : x.toRat = 0 ∨ x.InPlainRange
  · obtain ⟨-, places, p, htext⟩ := literalText_plain hx hplain
    obtain ⟨c, cs, hpointed, hc, hcs⟩ := p.exists_pointed_eq
    exact ⟨c, cs, by rw [htext, hpointed], hc, hcs⟩
  · obtain ⟨places, p, -, e, -, -, htext⟩ := literalText_scientific hx hplain
    obtain ⟨c, cs, hpointed, hc, hcs⟩ := p.exists_pointed_eq
    refine ⟨c, cs ++ 'E' :: (wholeText e).toList, by rw [htext, hpointed]; rfl, hc, fun d hd => ?_⟩
    rw [List.mem_append, List.mem_cons] at hd
    rcases hd with hd | rfl | hd
    · exact hcs d hd
    · exact .inr (by decide)
    · rcases mem_wholeText hd with hd | rfl
      · exact .inl hd
      · exact .inr (by decide)

omit hx

-- ============================================================ the decimal

/-- Both texts of a double denote one decimal, which reads as the double and has
no more digits than any that does. -/
theorem exists_decimal (hx : x.isFinite = true) :
    ∃ d : Decimal, d.readsAs x = true
      ∧ (∀ d' : Decimal, d'.readsAs x = true → d.digits.length ≤ d'.digits.length)
      ∧ denoted? x.shortestText = some (x.isNegative, d.value)
      ∧ denoted? x.literalText = some (x.isNegative, d.value) := by
  -- zero has no leading digit, so its texts are looked at by themselves
  rcases hzero : x.isZero with _ | _
  · have hpos := coefficient_pos hx hzero (readsAs_shortest hx hzero)
    have hexponent : (x.shortest.point - 1).natAbs ≤ 400 := by
      have hleading := leadingExponent_bounds hx hzero
      have hpoint := point_shortest_bounds hx hzero
      omega
    have hpositional := Decimal.denoted?_positional hpos x.isNegative
    obtain ⟨hliteral, hshortest⟩ := Decimal.denoted?_scientific hpos x.isNegative hexponent
    refine ⟨x.shortest, readsAs_shortest hx hzero,
      fun d' hd' => length_digits_shortest_le hx hzero hd', ?_, ?_⟩
    · rw [shortestText_eq hx hzero]
      split
      · exact hpositional
      · exact hshortest
    · by_cases hplain : x.InPlainRange
      · rw [literalText_of_plain hx hzero hplain]
        exact hpositional
      · rw [literalText_of_scientific hx hzero hplain]
        exact hliteral
  · have hreads : Decimal.readsAs ⟨0, 0⟩ x = true := by
      have hmagnitude : x.magnitude = 0 := eq_of_beq hzero
      rw [Decimal.readsAs_iff hx, hmagnitude, Decimal.numerator, Nat.zero_mul, Nat.zero_mul,
        roundMagnitude_zero]
    have hnumeral : numeral? (['0'] ++ '.' :: ['0']) = some ⟨0, -1⟩ :=
      numeral?_point (List.cons_ne_nil _ _) rfl rfl
    have hdenoted := denoted?_signed (List.cons_ne_nil _ _) rfl x.isNegative hnumeral
    have hvalue : Decimal.value ⟨0, -1⟩ = Decimal.value ⟨0, 0⟩ := by
      norm_num [Decimal.value]
    obtain ⟨hshortest, hliteral⟩ := texts_zero hx hzero
    rw [hvalue] at hdenoted
    rw [hshortest, hliteral]
    exact ⟨⟨0, 0⟩, hreads, fun d' _ => Nat.zero_le _, hdenoted, hdenoted⟩

end Double

-- ========================================================== reading back

/-- Decimals of one value are read as one double. -/
theorem Decimal.toDouble_congr {d₁ d₂ : Decimal} (h : d₁.value = d₂.value) (negative : Bool) :
    d₁.toDouble negative = d₂.toDouble negative := by
  have hround : Double.roundMagnitude d₁.numerator d₁.denominator
      = Double.roundMagnitude d₂.numerator d₂.denominator := by
    refine Double.roundMagnitude_congr d₁.denominator_pos d₂.denominator_pos ?_
    rw [numerator_div_denominator, numerator_div_denominator, h]
  rw [toDouble, toDouble, Double.round_eq, Double.round_eq, hround]

namespace Double

variable {x y : Double}

/-- The literal text of a finite double has plain characters only. -/
theorem isPlain_of_mem_literalText (hx : x.isFinite = true) {c : Char}
    (h : c ∈ x.literalText.toList) : IsPlain c := by
  obtain ⟨first, rest, htext, hfirst, hrest⟩ := exists_literalText_eq hx
  rw [htext, signed, String.toList_ofList] at h
  have hdigits : c ∈ first :: rest → IsPlain c := by
    intro hmem
    rcases List.mem_cons.1 hmem with rfl | hmem
    · exact .inl hfirst
    · exact hrest c hmem
  split at h
  · rcases List.mem_cons.1 h with rfl | h
    · exact .inr (by decide)
    · exact hdigits h
  · exact hdigits h

/-- The reader of numbers reads the literal text of a finite double as the double. -/
theorem ofText?_literalText (hx : x.isFinite = true) : ofText? x.literalText = some x := by
  obtain ⟨d, hreads, -, -, hdenoted⟩ := exists_decimal hx
  obtain ⟨c, cs, htext, hc, -⟩ := exists_literalText_eq hx
  have hplain : ∀ c' ∈ x.literalText.toList, IsPlain c' :=
    fun _ => isPlain_of_mem_literalText hx
  have hsign : takeSign x.literalText.toList = (x.isNegative, c :: cs) := by
    rw [htext, takeSign_cons _ hc]
  rw [denoted?, hsign] at hdenoted
  obtain ⟨d', hnumeral, heq⟩ := Option.map_eq_some_iff.1 hdenoted
  rw [ofText?_of_takeSign hplain hsign hc, hnumeral, Option.map_some,
    Decimal.toDouble_congr (Prod.mk.inj heq).2, eq_of_beq hreads]

/-- Finite doubles with one literal text are the same. -/
theorem eq_of_literalText (hx : x.isFinite = true) (hy : y.isFinite = true)
    (h : x.literalText = y.literalText) : x = y := by
  have hread := ofText?_literalText hx
  rw [h, ofText?_literalText hy] at hread
  exact (Option.some.inj hread).symm

/-- What is not a number has one text. -/
theorem literalText_of_isNaN (hx : x.isNaN = true) : x.literalText = "NaN" := by
  rw [literalText, if_pos hx]

/-- An infinity has its own, with its sign. -/
theorem literalText_of_isInfinite (hx : x.isInfinite = true) :
    x.literalText = infinityText x.isNegative := by
  have hnan : x.isNaN = false := by
    rw [isNaN, eq_of_beq hx]
    rfl
  rw [literalText, hnan, if_neg Bool.false_ne_true, if_pos hx]

/-- There are two infinities, told apart by the sign. -/
theorem eq_of_isInfinite (hx : x.isInfinite = true) : x = infinity x.isNegative := by
  rw [← ofMagnitude_magnitude x, eq_of_beq hx, isNegative_ofMagnitude _ (by decide)]
  rfl

/-- The literal text of any double is read as the double, if all that is not a
number counts as one. -/
theorem exists_ofText?_literalText (x : Double) :
    ∃ y, ofText? x.literalText = some y ∧ x.key = y.key := by
  rcases hx : x.isFinite with _ | _
  · rcases isNaN_or_isInfinite hx with hnan | hinfinite
    · rw [literalText_of_isNaN hnan]
      exact ⟨nan, by decide +kernel, key_eq_iff.2 (.inr ⟨hnan, by decide⟩)⟩
    · rw [literalText_of_isInfinite hinfinite]
      refine ⟨infinity x.isNegative, ?_, congrArg key (eq_of_isInfinite hinfinite)⟩
      cases x.isNegative <;> decide +kernel
  · exact ⟨x, ofText?_literalText hx, rfl⟩

end Double

-- ============================================================== scanning

/-- A decimal with a point is a numeral. -/
theorem PlainDecimal.isNumeral_pointed {places : Nat} (p : PlainDecimal places) :
    IsNumeral (String.ofList p.pointed) := by
  refine ⟨p.whole, if p.fraction.isEmpty then ['0'] else p.fraction, p.whole_ne_nil,
    p.isDigit_whole, ?_, .inr ⟨?_, String.toList_ofList⟩⟩
  · split
    · rfl
    · exact p.isDigit_fraction
  · split
    · exact List.cons_ne_nil _ _
    · next hne => exact fun hnil => hne (List.isEmpty_iff.2 hnil)

namespace Double

variable {x : Double}

/-- What denotes a positive number has no sign. -/
theorem isNegative_of_pos (hpos : 0 < x.toRat) : x.isNegative = false := by
  by_contra hnegative
  have hnonneg : (0 : ℚ) ≤ x.units / one := div_nonneg (Nat.cast_nonneg _) (Nat.cast_nonneg _)
  rw [toRat_eq, if_pos (Bool.of_not_eq_false hnegative)] at hpos
  exact (neg_pos.1 hpos).not_ge hnonneg

/-- And it is not a zero. -/
theorem isZero_of_pos (hpos : 0 < x.toRat) : x.isZero = false := by
  rw [← Bool.not_eq_true, ← toRat_eq_zero_iff]
  exact hpos.ne'

/-- A positive text in the plain range is scanned as a number token with this
text as its literal. -/
theorem scan_literalText (hx : x.isFinite = true) (hpos : 0 < x.toRat)
    (hplain : x.InPlainRange) :
    ∃ t z : Token, scan x.literalText = [.token t, .token z] ∧ t.kind = .number
      ∧ t.lexeme = x.literalText ∧ t.literal = some x.literalText ∧ z.kind = .eof := by
  have hzero := isZero_of_pos hpos
  have hnegative := isNegative_of_pos hpos
  have hnumeral : IsNumeral x.literalText := by
    obtain ⟨places, p, htext, -⟩ := PlainDecimal.exists_positional
      (isSignificant_shortest hx hzero) x.shortest.point
    rw [literalText_of_plain hx hzero hplain, ← htext, hnegative]
    exact p.isNumeral_pointed
  have hrest : String.ofList (Scanner.ofSource x.literalText).rest = x.literalText :=
    String.ofList_toList
  obtain ⟨t, z, hevents, hkind, hlexeme, hliteral, hz⟩ :=
    Scanner.events_of_isNumeral (s := Scanner.ofSource x.literalText) (hrest.symm ▸ hnumeral)
  rw [hrest] at hlexeme hliteral
  rw [ofText?_literalText hx] at hliteral
  exact ⟨t, z, hevents, hkind, hlexeme, hliteral, hz⟩

end Double

-- ============================================================ the result

open Double in
/-- How the literal text of a double keeps it. -/
structure Double.KeptInText (x : Double) : Prop where
  /-- The text denotes the shortest decimal that reads as the double, like the
  shortest text. -/
  denotes : ∃ d : Decimal, d.toDouble x.isNegative = x
    ∧ (∀ d' : Decimal, d'.toDouble x.isNegative = x → d.digits.length ≤ d'.digits.length)
    ∧ denoted? x.shortestText = some (x.isNegative, d.value)
    ∧ denoted? x.literalText = some (x.isNegative, d.value)
  /-- A zero, and what is in the plain range, is written without an exponent. -/
  plain : x.toRat = 0 ∨ x.InPlainRange →
    x.literalText = x.shortestText
      ∧ ∃ (places : Nat) (p : PlainDecimal places),
        x.literalText = signed x.isNegative p.pointed
  /-- All else is written with an exponent and one digit before the point. -/
  scientific : ¬ (x.toRat = 0 ∨ x.InPlainRange) →
    ∃ (places : Nat) (p : PlainDecimal places) (c : Char) (e : ℤ),
      p.whole = [c] ∧ c ≠ '0'
        ∧ x.literalText = signed x.isNegative (p.pointed ++ 'E' :: (wholeText e).toList)
  /-- No other double has the text. -/
  injective : ∀ y : Double, y.isFinite = true → y.literalText = x.literalText → y = x
  /-- A text without sign and exponent is the literal of the number token that it
  is scanned as. -/
  scanned : 0 < x.toRat → x.InPlainRange →
    ∃ t z : Token, scan x.literalText = [.token t, .token z] ∧ t.kind = .number
      ∧ t.lexeme = x.literalText ∧ t.literal = some x.literalText ∧ z.kind = .eof

open Double in
/-- The literal text keeps every finite double: the value in one of two forms,
and the sign of a zero. -/
theorem literalText_keeps_value (x : Double) (hx : x.isFinite = true) : x.KeptInText where
  denotes := by
    obtain ⟨d, hreads, hmin, hshortest, hliteral⟩ := exists_decimal hx
    exact ⟨d, eq_of_beq hreads, fun d' hd' => hmin d' (beq_iff_eq.2 hd'), hshortest, hliteral⟩
  plain := literalText_plain hx
  scientific := literalText_scientific hx
  injective y hy h := eq_of_literalText hy hx h
  scanned := scan_literalText hx

/-- Minus two ten-thousandths are below the plain range, but their shortest text
is positional. -/
theorem literalText_keeps_value_small :
    let x : Double := ⟨0xBF2A36E2EB1C432D⟩
    x.isFinite = true ∧ x.literalText = "-2.0E-4" ∧ x.shortestText = "-0.0002" ∧ x.KeptInText :=
  ⟨by decide, by decide +kernel, by decide +kernel, literalText_keeps_value _ (by decide)⟩

end Lox

/-
Digit strings and the numbers they write.

`Double.digitsValue` is what the reader of numbers makes of a digit string.
The digits that are written for a number have it as their value
(`digitsValue_toDigits`), and have no zero in front that could be left out
(`head_toDigits`). A fraction is written with leading zeros up to the number
of places, and without the zeros at its end.

A `PlainDecimal` is a text of this kind: digits, and perhaps a point and more
digits, with nothing superfluous at either end.
-/
import Lox.Double.Text
import Lox.Double.Numeral
import Mathlib.Data.List.DropRight
import Mathlib.Data.Rat.Floor
import Mathlib.Tactic.FieldSimp
import Mathlib.Tactic.Linarith

namespace Lox.Double

-- ================================================================ values

/-- The value of digits is the one that the core library gives them in base
ten. -/
theorem digitsValue_eq (cs : List Char) : digitsValue cs = Nat.ofDigitChars 10 cs 0 :=
  Nat.ofDigitChars_eq_foldl.symm

/-- Decimal digits read back as the number they were written for. -/
theorem digitsValue_toDigits (n : Nat) : digitsValue (Nat.toDigits 10 n) = n := by
  rw [digitsValue_eq, Nat.ofDigitChars_ten_toDigits]

/-- Digits in front count for as many powers of ten as there are digits
behind. -/
theorem digitsValue_append (cs ds : List Char) :
    digitsValue (cs ++ ds) = 10 ^ ds.length * digitsValue cs + digitsValue ds := by
  rw [digitsValue_eq, Nat.ofDigitChars_append, Nat.ofDigitChars_eq_ofDigitChars_zero,
    digitsValue_eq, digitsValue_eq]

theorem digitsValue_zeros (k : Nat) : digitsValue (List.replicate k '0') = 0 := by
  rw [digitsValue_eq, Nat.ofDigitChars_replicate_zero, Nat.mul_zero]

-- ================================================================ digits

/-- The decimal digits of a number are ASCII digits. -/
theorem isDigit_of_mem_toDigits {n : Nat} {c : Char} (h : c ∈ Nat.toDigits 10 n) :
    isDigit c = true := by
  have hc := Nat.isDigit_of_mem_toDigits (by decide) (by decide) h
  simpa [Char.isDigit, isDigit, Char.le_def] using hc

theorem all_toDigits (n : Nat) : (Nat.toDigits 10 n).all isDigit = true :=
  List.all_eq_true.2 fun _ => isDigit_of_mem_toDigits

/-- Only zero is written as the digit zero. -/
theorem digitChar_eq_zero : ∀ n < 10, n.digitChar = '0' → n = 0 := by
  decide

/-- The digits of a number do not start with a zero, unless it is zero. -/
theorem head_toDigits (n : Nat) (h : (Nat.toDigits 10 n).head? = some '0') : n = 0 := by
  induction n using Nat.strong_induction_on with
  | _ n ih =>
      rw [Nat.toDigits_eq_if (by decide)] at h
      split at h
      · next hlt => exact digitChar_eq_zero n hlt (Option.some.inj h)
      · next hge =>
          rw [List.head?_append_of_ne_nil _ Nat.toDigits_ne_nil] at h
          have hfront := ih (n / 10) (by omega) h
          omega

-- =============================================================== padding

/-- The digits of a number with zeros in front, up to a number of digits. -/
def padded (places n : Nat) : List Char :=
  List.replicate (places - (Nat.toDigits 10 n).length) '0' ++ Nat.toDigits 10 n

/-- Padding with zeros keeps the value. -/
theorem digitsValue_padded (places n : Nat) : digitsValue (padded places n) = n := by
  rw [padded, digitsValue_append, digitsValue_zeros, Nat.mul_zero, Nat.zero_add,
    digitsValue_toDigits]

/-- What is padded with is digits. -/
theorem all_padded (places n : Nat) : (padded places n).all isDigit = true := by
  rw [padded, List.all_append, all_toDigits, Bool.and_true, List.all_replicate]
  simp [isDigit]

/-- A number that needs no more places than it is padded to fills exactly
these. -/
theorem length_padded {places n : Nat} (hplaces : 0 < places) (hn : n < 10 ^ places) :
    (padded places n).length = places := by
  have hle := (Nat.length_toDigits_le_iff (b := 10) (by decide) hplaces).2 hn
  rw [padded, List.length_append, List.length_replicate]
  omega

-- ============================================================== trimming

/-- Digits without the zeros at their end. -/
def trimmed (cs : List Char) : List Char :=
  cs.rdropWhile (· == '0')

/-- A last digit is trimmed off exactly if it is a zero. -/
theorem trimmed_concat (cs : List Char) (c : Char) :
    trimmed (cs ++ [c]) = if c = '0' then trimmed cs else cs ++ [c] := by
  unfold trimmed
  rw [List.rdropWhile_concat]
  simp

/-- What is trimmed off are zeros. -/
theorem trimmed_append_zeros (cs : List Char) :
    ∃ k, cs = trimmed cs ++ List.replicate k '0' := by
  induction cs using List.reverseRecOn with
  | nil => exact ⟨0, rfl⟩
  | append_singleton cs c ih =>
      rw [trimmed_concat]
      split
      · next hc =>
          obtain ⟨k, hk⟩ := ih
          refine ⟨k + 1, ?_⟩
          rw [List.replicate_succ', ← List.append_assoc, ← hk, hc]
      · exact ⟨0, (List.append_nil _).symm⟩

/-- No zero is left at the end. -/
theorem getLast?_trimmed (cs : List Char) : (trimmed cs).getLast? ≠ some '0' := by
  induction cs using List.reverseRecOn with
  | nil => simp [trimmed]
  | append_singleton cs c ih =>
      rw [trimmed_concat]
      split
      · exact ih
      · next hc => simpa using hc

/-- Trimming keeps digits digits. -/
theorem all_trimmed {cs : List Char} (h : cs.all isDigit = true) :
    (trimmed cs).all isDigit = true := by
  obtain ⟨k, hk⟩ := trimmed_append_zeros cs
  rw [hk, List.all_append, Bool.and_eq_true] at h
  exact h.1

theorem length_trimmed_le (cs : List Char) : (trimmed cs).length ≤ cs.length :=
  (List.rdropWhile_prefix _ cs).length_le

/-- The zeros at the end count for the place of the digits only. -/
theorem digitsValue_trimmed (cs : List Char) :
    digitsValue cs = digitsValue (trimmed cs) * 10 ^ (cs.length - (trimmed cs).length) := by
  obtain ⟨k, hk⟩ := trimmed_append_zeros cs
  have hlength := congrArg List.length hk
  have hvalue := congrArg digitsValue hk
  rw [List.length_append, List.length_replicate] at hlength
  rw [digitsValue_append, digitsValue_zeros, List.length_replicate, Nat.add_zero] at hvalue
  rw [hvalue, hlength, Nat.add_sub_cancel_left, Nat.mul_comm]

/-- Nothing is left exactly of the padded digits of zero. -/
theorem trimmed_padded_eq_nil_iff (places n : Nat) :
    trimmed (padded places n) = [] ↔ n = 0 := by
  constructor
  · intro hnil
    have hvalue := digitsValue_trimmed (padded places n)
    rw [digitsValue_padded, hnil] at hvalue
    exact hvalue.trans (Nat.zero_mul _)
  · rintro rfl
    refine List.rdropWhile_eq_nil_iff.2 fun c hc => ?_
    rw [padded, Nat.toDigits_zero, List.mem_append, List.mem_replicate,
      List.mem_singleton] at hc
    rcases hc with ⟨-, rfl⟩ | rfl <;> rfl

end Double

-- ======================================================== plain decimals

/-- A decimal written out: digits, and perhaps a point with at most the given
number of digits after it. No zero that could be left out
stands in front of the whole number or at the end of the fraction. -/
structure PlainDecimal (places : Nat) where
  whole : List Char
  fraction : List Char
  whole_ne_nil : whole ≠ []
  isDigit_whole : whole.all Double.isDigit = true
  isDigit_fraction : fraction.all Double.isDigit = true
  /-- A zero in front stands alone. -/
  head_whole : whole.head? = some '0' → whole = ['0']
  /-- There is no zero at the end. -/
  last_fraction : fraction.getLast? ≠ some '0'
  length_fraction : fraction.length ≤ places

namespace PlainDecimal

variable {places : Nat}

/-- The text of a decimal, without a sign. -/
def chars (d : PlainDecimal places) : List Char :=
  d.whole ++ if d.fraction.isEmpty then [] else '.' :: d.fraction

/-- The number that the text of a decimal denotes. -/
def value (d : PlainDecimal places) : ℚ :=
  Double.digitsValue d.whole + Double.digitsValue d.fraction / 10 ^ d.fraction.length

/-- The text of a number counted in the last place. -/
def ofUnits (hplaces : 0 < places) (n : Nat) : PlainDecimal places where
  whole := Nat.toDigits 10 (n / 10 ^ places)
  fraction := Double.trimmed (Double.padded places (n % 10 ^ places))
  whole_ne_nil := Nat.toDigits_ne_nil
  isDigit_whole := Double.all_toDigits _
  isDigit_fraction := Double.all_trimmed (Double.all_padded _ _)
  head_whole h := by rw [Double.head_toDigits _ h, Nat.toDigits_zero]
  last_fraction := Double.getLast?_trimmed _
  length_fraction := by
    have hlength := Double.length_padded hplaces (Nat.mod_lt n (Nat.pow_pos (by decide)))
    exact (Double.length_trimmed_le _).trans hlength.le

variable (hplaces : 0 < places) (n : Nat)

/-- A plain decimal of so many units is as many units of its last place. -/
theorem value_ofUnits : (ofUnits hplaces n).value = n / 10 ^ places := by
  let digits := Double.padded places (n % 10 ^ places)
  have hlength : digits.length = places :=
    Double.length_padded hplaces (Nat.mod_lt n (Nat.pow_pos (by decide)))
  have hle : (Double.trimmed digits).length ≤ places :=
    (Double.length_trimmed_le digits).trans hlength.le
  have hfraction : n % 10 ^ places
      = Double.digitsValue (Double.trimmed digits)
        * 10 ^ (places - (Double.trimmed digits).length) := by
    rw [← hlength, ← Double.digitsValue_trimmed, Double.digitsValue_padded, hlength]
  have hpow : (10 : ℚ) ^ places
      = 10 ^ (places - (Double.trimmed digits).length) * 10 ^ (Double.trimmed digits).length := by
    rw [← pow_add, Nat.sub_add_cancel hle]
  have hwhole : (n : ℚ) = 10 ^ places * (n / 10 ^ places : ℕ) + (n % 10 ^ places : ℕ) := by
    exact_mod_cast (Nat.div_add_mod n (10 ^ places)).symm
  show (Double.digitsValue (Nat.toDigits 10 (n / 10 ^ places)) : ℚ)
    + Double.digitsValue (Double.trimmed digits) / 10 ^ (Double.trimmed digits).length = _
  rw [Double.digitsValue_toDigits, hwhole, hfraction, hpow]
  push_cast
  field_simp

/-- It has no fraction exactly if the units are a whole number. -/
theorem fraction_ofUnits : (ofUnits hplaces n).fraction = [] ↔ n % 10 ^ places = 0 :=
  Double.trimmed_padded_eq_nil_iff _ _

end PlainDecimal

end Lox

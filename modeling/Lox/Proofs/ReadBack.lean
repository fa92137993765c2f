/-
A printed number reads back as a number that prints the same.

# Two roundings

What is printed is the value rounded to ten places, and what is read is the
nearest double to what was printed. The double that was printed is at most
half a unit of the last place away from the text, so the double that is read
is no farther away from it, and is displayed by the same text, unless it is
exactly half a unit above: halves go up. Then the printed one is half a unit
below, and the two are a whole unit apart. But doubles are multiples of a
power of two, and a unit of the last place is not
(`units_mul_ne`). So this does not happen, whatever the spacing of doubles is
there.

# The text

The text is a numeral, perhaps with a minus before it. It is scanned as a
number token, perhaps with a minus token before it, and is parsed as a number
literal under a minus operator. A negative number is therefore read as the
negation of a double; and a number that rounds to zero is printed without a
sign.
-/
import Lox.Proofs.Display
import Lox.Proofs.Expression
import Lox.Proofs.LongestMatch

namespace Lox

-- ======================================================= reading a decimal

namespace PlainDecimal

variable {places : Nat} (d : PlainDecimal places)

/-- The decimal that the reader of numbers makes of the text. -/
def decimal : Decimal :=
  ⟨Double.digitsValue (d.whole ++ d.fraction), -d.fraction.length⟩

/-- A plain decimal has the value of the decimal it is read as. -/
theorem value_decimal : d.decimal.value = d.value := by
  rw [Decimal.value, decimal, Double.digitsValue_append, zpow_neg, zpow_natCast, value]
  push_cast
  field_simp

theorem isNumeral_chars : IsNumeral (String.ofList d.chars) := by
  refine ⟨d.whole, d.fraction, d.whole_ne_nil, d.isDigit_whole, d.isDigit_fraction, ?_⟩
  rw [String.toList_ofList, chars]
  cases hfraction : d.fraction with
  | nil => exact .inl (List.append_nil _)
  | cons c cs => exact .inr ⟨List.cons_ne_nil c cs, rfl⟩

theorem numeral?_chars : Double.numeral? d.chars = some d.decimal := by
  rw [chars, decimal]
  cases hfraction : d.fraction with
  | nil =>
      show Double.numeral? (d.whole ++ []) = _
      rw [List.append_nil, Double.numeral?_whole d.whole_ne_nil d.isDigit_whole]
      rfl
  | cons c cs =>
      rw [← hfraction]
      have hpoint := Double.numeral?_point d.whole_ne_nil d.isDigit_whole d.isDigit_fraction
      rw [if_neg (by rw [hfraction]; exact Bool.false_ne_true), hpoint]

/-- The text of a plain decimal is read as the double next to it. -/
theorem ofText?_chars :
    Double.ofText? (String.ofList d.chars) = some (d.decimal.toDouble false) := by
  rw [Double.ofText?_eq_numeral? d.isNumeral_chars, String.toList_ofList, d.numeral?_chars]
  rfl

end PlainDecimal

-- ======================================================= the same display

/-- What is as near to a whole number as something that rounds to it rounds to
it as well, unless it is one more. -/
theorem floor_add_half_of_near {a b : ℚ} {n : ℤ} (ha : ⌊a + 1 / 2⌋ = n)
    (hnear : |b - n| ≤ |a - n|) (hne : b ≠ a + 1) : ⌊b + 1 / 2⌋ = n := by
  obtain ⟨hlow, hhigh⟩ := Int.floor_eq_iff.1 ha
  obtain ⟨hbelow, habove⟩ := abs_le.1 hnear
  refine Int.floor_eq_iff.2 ?_
  rcases le_or_gt (n : ℚ) a with hge | hlt
  · rw [abs_of_nonneg (sub_nonneg.2 hge)] at hbelow habove
    constructor <;> linarith
  · rw [abs_of_neg (sub_neg.2 hlt)] at hbelow habove
    refine ⟨by linarith, lt_of_not_ge fun hge => hne ?_⟩
    -- one is half below, and the other half above
    linarith

namespace Double

/-- No two doubles are a unit of the last displayed place apart. -/
theorem units_mul_ne (m n : Nat) : m * 10 ^ displayPlaces ≠ n * 10 ^ displayPlaces + one := by
  intro h
  have hunit : 10 ^ displayPlaces ∣ one :=
    (Nat.dvd_add_right (Nat.dvd_mul_left _ n)).1 (h ▸ Nat.dvd_mul_left _ m)
  have hfive : 5 ∣ 2 ^ unitExponent := one_eq ▸ (Dvd.intro_left (2 * 10 ^ 9) rfl).trans hunit
  have hcoprime : Nat.Coprime 5 (2 ^ unitExponent) := Nat.Coprime.pow_right _ (by decide)
  exact absurd (hcoprime.eq_one_of_dvd hfive) (by decide)

/-- Distances in units are distances in the last displayed place, scaled. -/
theorem abs_units_sub (u n : Nat) :
    |(u : ℚ) - n / 10 ^ displayPlaces * one|
      = |(u / one * 10 ^ displayPlaces : ℚ) - n| * (one / 10 ^ displayPlaces) := by
  have hone : (0 : ℚ) < one := Nat.cast_pos.2 one_pos
  have hscale : (0 : ℚ) < one / 10 ^ displayPlaces := by positivity
  have hmul : (u : ℚ) - n / 10 ^ displayPlaces * one
      = ((u / one * 10 ^ displayPlaces : ℚ) - n) * (one / 10 ^ displayPlaces) := by
    generalize (one : ℚ) = k at hone ⊢
    field_simp
  rw [hmul, abs_mul, abs_of_pos hscale]

variable {v w : Double}

/-- What is displayed is near to what it is displayed for. -/
theorem abs_units_sub_lt (v : Double) :
    |(v.units : ℚ) - v.displayUnits / 10 ^ displayPlaces * one| < one / 2 := by
  have hone : (0 : ℚ) < one := Nat.cast_pos.2 one_pos
  have hfloor := floor_magnitude v
  rw [abs_toRat] at hfloor
  obtain ⟨hlow, hhigh⟩ := Int.floor_eq_iff.1 hfloor
  rw [Int.cast_natCast] at hlow hhigh
  have hhalf : |(v.units / one * 10 ^ displayPlaces : ℚ) - v.displayUnits| ≤ 1 / 2 := by
    rw [abs_le]
    constructor <;> linarith
  have hplace : (one / 10 ^ displayPlaces : ℚ) < one :=
    div_lt_self hone (by norm_num [displayPlaces])
  rw [abs_units_sub]
  calc |(v.units / one * 10 ^ displayPlaces : ℚ) - v.displayUnits| * (one / 10 ^ displayPlaces)
      ≤ 1 / 2 * (one / 10 ^ displayPlaces) := mul_le_mul_of_nonneg_right hhalf (by positivity)
    _ < one / 2 := by linarith

/-- What is as near to the displayed value as the double itself is displayed by
the same units. -/
theorem displayUnits_of_near
    (h : |(w.units : ℚ) - v.displayUnits / 10 ^ displayPlaces * one|
      ≤ |(v.units : ℚ) - v.displayUnits / 10 ^ displayPlaces * one|) :
    w.displayUnits = v.displayUnits := by
  have hone : (0 : ℚ) < one := Nat.cast_pos.2 one_pos
  have hscale : (0 : ℚ) < one / 10 ^ displayPlaces := by positivity
  rw [abs_units_sub, abs_units_sub] at h
  have hnear := le_of_mul_le_mul_right h hscale
  have hv := floor_magnitude v
  have hw := floor_magnitude w
  rw [abs_toRat] at hv hw
  have hne : (w.units / one * 10 ^ displayPlaces : ℚ)
      ≠ v.units / one * 10 ^ displayPlaces + 1 := by
    intro heq
    refine units_mul_ne w.units v.units ?_
    have hunits : (w.units * 10 ^ displayPlaces : ℚ) = v.units * 10 ^ displayPlaces + one := by
      generalize (one : ℚ) = k at hone heq ⊢
      field_simp at heq
      linarith
    exact_mod_cast hunits
  exact Int.ofNat.inj (hw.symm.trans (floor_add_half_of_near hv hnear hne))

-- =========================================================== reading back

/-- The double that the digits printed for a double are read as. -/
def readMagnitude (v : Double) : Double :=
  v.displayDigits.decimal.toDouble false

/-- The double that the text printed for a double is read as. -/
def readBack (v : Double) : Double :=
  if v.displayed < 0 then v.readMagnitude.neg else v.readMagnitude

/-- The digits displayed are read as the magnitude read back. -/
theorem ofText?_displayDigits (v : Double) :
    ofText? (String.ofList v.displayDigits.chars) = some v.readMagnitude :=
  v.displayDigits.ofText?_chars

/-- The digits of a finite double are read as one that is displayed by the same
units. -/
theorem readMagnitude_spec (hv : v.isFinite = true) :
    v.readMagnitude.isFinite = true ∧ v.readMagnitude.isNegative = false
      ∧ v.readMagnitude.displayUnits = v.displayUnits := by
  have hvalue : v.displayDigits.decimal.value = v.displayUnits / 10 ^ displayPlaces :=
    (PlainDecimal.value_decimal _).trans (PlainDecimal.value_ofUnits _ _)
  have hquotient := Decimal.numerator_div_denominator v.displayDigits.decimal
  rw [hvalue] at hquotient
  have hpos : 0 < v.displayDigits.decimal.denominator := Nat.pow_pos (by decide)
  have hclose := abs_units_sub_lt v
  rw [← hquotient] at hclose
  obtain ⟨hfinite, hsign, hnear⟩ := round_near hv hpos hclose false
  rw [hquotient] at hnear
  exact ⟨hfinite, hsign, displayUnits_of_near hnear⟩

/-- What is displayed by the same units, and below zero alike, has the same
text. -/
theorem displayText_congr (hv : v.isFinite = true) (hw : w.isFinite = true)
    (hunits : w.displayUnits = v.displayUnits) (hsign : w.displayed < 0 ↔ v.displayed < 0) :
    w.displayText = v.displayText := by
  rw [displayText_eq w hw, displayText_eq v hv, displayDigits, displayDigits, hunits,
    decide_eq_decide.2 hsign]

/-- A sign does not change the digits displayed. -/
theorem displayUnits_neg (x : Double) : x.neg.displayUnits = x.displayUnits := by
  rw [displayUnits, units_neg, displayUnits]

/-- What was read back is displayed as before. -/
theorem displayText_readBack (hv : v.isFinite = true) :
    v.readBack.displayText = v.displayText := by
  obtain ⟨hfinite, hsign, hunits⟩ := readMagnitude_spec hv
  unfold readBack
  split
  · next hneg =>
      have hne := ((displayed_neg_iff v).1 hneg).2
      refine displayText_congr hv ((isFinite_neg _).trans hfinite)
        ((displayUnits_neg _).trans hunits) (iff_of_true ?_ hneg)
      rw [displayed_neg_iff, isNegative_neg, hsign, displayUnits_neg, hunits]
      exact ⟨rfl, hne⟩
  · next hneg =>
      refine displayText_congr hv hfinite hunits (iff_of_false ?_ hneg)
      rw [displayed_neg_iff, hsign]
      exact fun h => Bool.false_ne_true h.1

end Double

-- =============================================================== scanning

namespace Scanner

/-- No space or comment begins with a digit. -/
theorem leadless_digit {c : Char} {rest : List Char} (h : isDigit c = true) :
    Leadless (c :: rest) := by
  refine leadless_cons_iff.2 ⟨?_, ?_⟩
  · rw [← Bool.not_eq_true]
    intro hblank
    rw [isDigit_of_isBlank hblank] at h
    cases h
  · rintro ⟨rfl, -⟩
    cases h

/-- None begins with a minus sign. -/
theorem leadless_minus (rest : List Char) : Leadless ('-' :: rest) :=
  leadless_cons_iff.2 ⟨by decide, fun h => absurd h.1 (by decide)⟩

/-- Where no trivia lead, the next event is the first one. -/
theorem events_of_leadless {s s' : Scanner} {e : Event} (hlead : Leadless s.rest)
    (h : Scans s e s') : s.events = e :: s'.events :=
  events_of_scans (by rwa [skipTrivia_leadless hlead])

/-- Where no text is left the end is the only event. -/
theorem events_of_nil {s : Scanner} (h : s.rest = []) :
    ∃ z : Token, s.events = [.token z] ∧ z.kind = .eof := by
  have hend : s.skipTrivia.rest = [] := by
    rw [skipTrivia, rest_pass, h, List.drop_nil]
  exact ⟨_, events_of_end hend, rfl⟩

/-- A text that is a numeral is scanned as a number token. -/
theorem events_of_isNumeral {s : Scanner} (h : IsNumeral (String.ofList s.rest)) :
    ∃ t z : Token, s.events = [.token t, .token z] ∧ t.kind = .number
      ∧ t.lexeme = String.ofList s.rest
      ∧ t.literal = (Double.ofText? (String.ofList s.rest)).map Double.literalText
      ∧ z.kind = .eof := by
  obtain ⟨c, rest, hcs, hdigit⟩ := h.first
  rw [String.toList_ofList] at hcs
  have hlead : Leadless s.rest := hcs ▸ leadless_digit hdigit
  have hlength : numberLength s.rest = s.rest.length :=
    Nat.le_antisymm (numberLength_le _) (length_le_numberLength (List.prefix_refl _) h)
  have hscans := Scans.number hcs (by rintro rfl; cases hdigit) hdigit
  have hend : (s.drop (numberLength s.rest)).rest = [] := by
    rw [rest_drop, hlength, List.drop_length]
  obtain ⟨z, hevents, hz⟩ := events_of_nil hend
  have htake : s.rest.take (numberLength s.rest) = s.rest := by
    rw [hlength, List.take_length]
  have hall := events_of_leadless hlead hscans
  rw [hevents, tokenOf_eq hlength.le, htake] at hall
  generalize (Double.ofText? (String.ofList s.rest)).map Double.literalText = literal at hall ⊢
  exact ⟨_, z, hall, rfl, rfl, rfl, hz⟩

/-- A minus before a text is scanned as a minus token before the text's. -/
theorem events_of_minus {s : Scanner} {rest : List Char} (hs : s.rest = '-' :: rest) :
    ∃ t : Token, s.events = .token t :: (s.drop 1).events ∧ t.kind = .minus := by
  have hlead : Leadless s.rest := hs ▸ leadless_minus rest
  have hread : symbol? s.rest = some (.minus, 1) := hs ▸ rfl
  have hscans := Scans.mark hs ⟨by decide, by decide, by decide⟩ hread
  exact ⟨_, events_of_leadless hlead hscans, rfl⟩

end Scanner

-- ================================================================ parsing

open Grammar

/-- The tree of a number, under a minus operator if it is to be negative. -/
def Node.ofNumber (negative : Bool) (x : Double) : Node :=
  if negative then .unary (.unary .negative) (.literal (.real x)) else .literal (.real x)

/-- The tokens of a numeral, perhaps with a minus before it, and the end
token. -/
theorem scan_signed (negative : Bool) {cs : List Char} {x : Double}
    (h : IsNumeral (String.ofList cs)) (hx : Double.ofText? (String.ofList cs) = some x) :
    ∃ (ts : List Token) (z : Token),
      scan (Double.signed negative cs) = ts.map .token ++ [.token z]
        ∧ Derives .prefixed ts (.ofNumber negative x) ∧ z.kind = .eof := by
  have hnumber {s : Scanner} (hs : s.rest = cs) :
      ∃ t z : Token, s.events = [.token t, .token z]
        ∧ Derives .prefixed [t] (.literal (.real x)) ∧ z.kind = .eof := by
    obtain ⟨t, z, hevents, hkind, hlexeme, -, hz⟩ := Scanner.events_of_isNumeral (s := s) (hs ▸ h)
    have hliteral : literal? t = some (.real x) := by
      rw [literal?, hkind, hlexeme, hs]
      exact congrArg (Option.map Value.real) hx
    exact ⟨t, z, hevents, .tighter (.literal hliteral), hz⟩
  cases negative with
  | false =>
      have hrest : (Scanner.ofSource (Double.signed false cs)).rest = cs := String.toList_ofList
      obtain ⟨t, z, hevents, hderives, hz⟩ := hnumber hrest
      exact ⟨[t], z, hevents, hderives, hz⟩
  | true =>
      have hrest : (Scanner.ofSource (Double.signed true cs)).rest = '-' :: cs :=
        String.toList_ofList
      obtain ⟨minus, hminus, hkind⟩ := Scanner.events_of_minus hrest
      obtain ⟨t, z, hevents, hderives, hz⟩ :=
        hnumber (s := (Scanner.ofSource (Double.signed true cs)).drop 1)
          (by rw [Scanner.rest_drop, hrest]; rfl)
      refine ⟨[minus, t], z, hminus.trans (by rw [hevents]; rfl), ?_, hz⟩
      exact .unary (by rw [hkind]; rfl) hderives

/-- An expression of a prefix operator's level is an expression. -/
theorem expression_of_prefixed {ts : List Token} {e : Node} (h : Derives .prefixed ts e) :
    Expression ts e :=
  .tighter <| .tighter <| .tighter <| .tighter <| .tighter <| .tighter <| .tighter h

/-- The tree of a signed number evaluates to it. -/
theorem Node.eval_ofNumber (negative : Bool) (x : Double) (m : Machine) :
    (Node.ofNumber negative x).eval m = (.ok (.real (if negative then x.neg else x)), m) := by
  cases negative <;> rfl

/-- A numeral, perhaps with a minus before it, is parsed up to the end as its
number, under a minus operator if there is a minus. -/
theorem expression_signed (negative : Bool) {cs : List Char} {x : Double}
    (h : IsNumeral (String.ofList cs)) (hx : Double.ofText? (String.ofList cs) = some x) :
    errorsOf (scan (Double.signed negative cs)) = []
      ∧ ∃ z : Token, z.kind = .eof
          ∧ (Cursor.ofSource (Double.signed negative cs)).expression
              = (.ok (.ofNumber negative x), ⟨[.token z], []⟩) := by
  obtain ⟨ts, z, hscan, hderives, hz⟩ := scan_signed negative h hx
  refine ⟨?_, z, hz, ?_⟩
  · rw [hscan, errorsOf_append, errorsOf_map_token]
    rfl
  · refine expression_eq_ok_iff.2 ⟨ts.map .token, z, [], hscan, by rw [hz]; rfl, ?_, ?_⟩
    · rw [tokensOf_map_token]
      exact expression_of_prefixed hderives
    · rw [errorsOf_map_token]
      rfl

theorem Machine.tell_nothing (m : Machine) (report : Reporter) (pending : List Event) :
    m.tell report ⟨pending, []⟩ = m := by
  rw [tell, List.map_nil, emitAll, List.append_nil]

-- ============================================================= the result

/-- The text printed for a finite number is scanned without lexical errors and
parsed up to its end, and evaluating it gives a number for which the same
text is printed, and does nothing else. -/
theorem printed_number_reads_back (v : Double) (hv : v.isFinite = true) (report : Reporter)
    (m : Machine) :
    ∃ (text : String) (w : Double),
      (Value.real v).display = .ok text
        ∧ errorsOf (scan text) = []
        ∧ (∃ (node : Node) (z : Token), z.kind = .eof
            ∧ (Cursor.ofSource text).expression = (.ok node, ⟨[.token z], []⟩)
            ∧ node.eval m = (.ok (.real w), m))
        ∧ evalSource text report m = (.ok (.real w), m)
        ∧ (Value.real w).display = .ok text := by
  let negative := decide (v.displayed < 0)
  obtain ⟨herrors, z, hz, hparse⟩ :=
    expression_signed negative v.displayDigits.isNumeral_chars (Double.ofText?_displayDigits v)
  rw [← Double.displayText_eq v hv] at herrors hparse
  have heval : (Node.ofNumber negative v.readMagnitude).eval m = (.ok (.real v.readBack), m) := by
    rw [Node.eval_ofNumber, Double.readBack]
    simp only [negative, decide_eq_true_eq]
  refine ⟨v.displayText, v.readBack, rfl, herrors, ⟨_, z, hz, hparse, heval⟩, ?_, ?_⟩
  · unfold evalSource
    rw [hparse]
    dsimp only
    rw [Machine.tell_nothing, heval]
    rfl
  · exact congrArg Except.ok (Double.displayText_readBack hv)

/-- Minus one third is printed with ten threes, which are not read as minus one
third again. -/
theorem printed_number_reads_back_third :
    let v : Double := ⟨0xBFD5555555555555⟩
    v.isFinite = true ∧ v.displayText = "-0.3333333333"
      ∧ ∃ (text : String) (w : Double),
        (Value.real v).display = .ok text
          ∧ errorsOf (scan text) = []
          ∧ (∃ (node : Node) (z : Token), z.kind = .eof
              ∧ (Cursor.ofSource text).expression = (.ok node, ⟨[.token z], []⟩)
              ∧ node.eval {} = (.ok (.real w), {}))
          ∧ evalSource text .echo {} = (.ok (.real w), {})
          ∧ (Value.real w).display = .ok text :=
  ⟨by decide, by decide +kernel, printed_number_reads_back _ (by decide) .echo {}⟩

end Lox

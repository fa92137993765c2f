/-
Plain numerals denote numbers.

The reader of numbers is generous: it strips white space, joins digits over
underscores, maps digits of other scripts, and knows signs, exponents and
names. On a plain numeral, digits with perhaps a point and more digits, all
of that does nothing, and what is left is a number (`ofText?_of_isNumeral`).
Number tokens of a source are of this form, so for them reading never
fails.
-/
import Lox.Double.Numeral

namespace Lox

/-- Digits, and perhaps a point with digits after it. -/
def IsNumeral (s : String) : Prop :=
  ∃ whole fraction : List Char,
    whole ≠ [] ∧ whole.all Double.isDigit ∧ fraction.all Double.isDigit
      ∧ (s.toList = whole ∨ (fraction ≠ [] ∧ s.toList = whole ++ '.' :: fraction))

/-- A numeral starts with a digit. -/
theorem IsNumeral.first {s : String} (h : IsNumeral s) :
    ∃ c rest, s.toList = c :: rest ∧ Double.isDigit c = true := by
  obtain ⟨whole, fraction, hne, hwhole, -, hs⟩ := h
  obtain ⟨c, rest, rfl⟩ := List.exists_cons_of_ne_nil hne
  rw [List.all_cons, Bool.and_eq_true] at hwhole
  rcases hs with hs | ⟨-, hs⟩
  · exact ⟨c, rest, hs, hwhole.1⟩
  · exact ⟨c, rest ++ '.' :: fraction, hs, hwhole.1⟩

namespace Double

-- ====================================================== plain characters

/-- The characters of a plain numeral, the minus, and the mark of an exponent. -/
def IsPlain (c : Char) : Prop :=
  isDigit c = true ∨ c ∈ ['.', '-', 'E']

/-- What holds of the ten digits and the three other characters holds of all plain
characters. -/
theorem IsPlain.elim {P : Char → Prop} [DecidablePred P] {c : Char} (h : IsPlain c)
    (hP : ['0', '1', '2', '3', '4', '5', '6', '7', '8', '9', '.', '-', 'E'].all (P ·) = true) :
    P c := by
  rw [List.all_eq_true] at hP
  apply of_decide_eq_true
  apply hP
  rcases h with h | hmark
  · simp only [isDigit, Bool.and_eq_true, decide_eq_true_eq] at h
    obtain ⟨hlo, hhi⟩ := h
    have h₁ : 48 ≤ c.toNat := hlo
    have h₂ : c.toNat ≤ 57 := hhi
    have hc : c = Char.ofNat c.toNat := c.ofNat_toNat.symm
    rw [hc]
    generalize c.toNat = n at h₁ h₂
    have hn : n = 48 ∨ n = 49 ∨ n = 50 ∨ n = 51 ∨ n = 52 ∨ n = 53 ∨ n = 54 ∨ n = 55 ∨ n = 56
        ∨ n = 57 := by
      omega
    rcases hn with rfl | rfl | rfl | rfl | rfl | rfl | rfl | rfl | rfl | rfl <;> decide
  · exact List.mem_append_right ['0', '1', '2', '3', '4', '5', '6', '7', '8', '9'] hmark

theorem IsPlain.toAsciiDigit {c : Char} (h : IsPlain c) : toAsciiDigit c = c :=
  h.elim (P := fun c => Double.toAsciiDigit c = c) (by decide)

theorem IsPlain.isSpace {c : Char} (h : IsPlain c) : Text.isSpace c = false :=
  h.elim (P := fun c => Text.isSpace c = false) (by decide)

theorem IsPlain.ne_underscore {c : Char} (h : IsPlain c) : c ≠ '_' :=
  h.elim (P := fun c => c ≠ '_') (by decide)

-- ============================================= what preparing does not do

/-- Plain text stays the same when its digits are made ASCII. -/
theorem map_toAsciiDigit {cs : List Char} (h : ∀ c ∈ cs, IsPlain c) :
    cs.map toAsciiDigit = cs := by
  rw [List.map_congr_left fun c hc => (h c hc).toAsciiDigit, List.map_id']

theorem dropWhile_isSpace {cs : List Char} (h : ∀ c ∈ cs, IsPlain c) :
    cs.dropWhile Text.isSpace = cs := by
  cases cs with
  | nil => rfl
  | cons c cs =>
      have hc := (h c (List.mem_cons_self ..)).isSpace
      rw [List.dropWhile_cons_of_neg (by rw [hc]; decide)]

theorem unpadded_eq {cs : List Char} (h : ∀ c ∈ cs, IsPlain c) : unpadded cs = cs := by
  unfold unpadded
  rw [dropWhile_isSpace h, dropWhile_isSpace fun c hc => h c (List.mem_reverse.1 hc),
    List.reverse_reverse]

theorem dropJoins_eq {cs : List Char} (h : ∀ c ∈ cs, IsPlain c) (b : Bool) :
    dropJoins b cs = cs := by
  fun_induction dropJoins b cs with
  | case1 => rfl
  | case2 c rest => exact absurd rfl (h '_' (List.mem_cons_self ..)).ne_underscore
  | case3 c rest => exact absurd rfl (h '_' (List.mem_cons_self ..)).ne_underscore
  | case4 b c rest _ ih => rw [ih fun x hx => h x (List.mem_cons_of_mem _ hx)]

/-- A text that starts with a digit has no sign. -/
theorem takeSign_digit {c : Char} {cs : List Char} (h : isDigit c = true) :
    takeSign (c :: cs) = (false, c :: cs) := by
  unfold takeSign
  split
  · next heq => cases heq; exact absurd h (by decide)
  · next heq => cases heq; exact absurd h (by decide)
  · rfl

/-- No digit turns into a letter when letters are lowered. -/
theorem toLower_digit {c : Char} (h : isDigit c = true) : c.toLower ≠ 'i' ∧ c.toLower ≠ 'n' :=
  IsPlain.elim (.inl h) (P := fun c => c.toLower ≠ 'i' ∧ c.toLower ≠ 'n') (by decide)

-- ============================================================ the number

/-- A run of digits before something that is none is taken whole. -/
theorem takeWhile_isDigit {whole : List Char} (h : whole.all isDigit) (rest : List Char)
    (hrest : ∀ c ∈ rest.head?, isDigit c = false) :
    (whole ++ rest).takeWhile isDigit = whole ∧ (whole ++ rest).dropWhile isDigit = rest := by
  rw [List.all_eq_true] at h
  have hnil : rest.takeWhile isDigit = [] ∧ rest.dropWhile isDigit = rest := by
    cases rest with
    | nil => exact ⟨rfl, rfl⟩
    | cons c rest =>
        have hc := hrest c rfl
        simp [hc]
  rw [List.takeWhile_append_of_pos h, List.dropWhile_append_of_pos h, hnil.1, hnil.2]
  exact ⟨List.append_nil _, rfl⟩

theorem exponent?_nil : exponent? [] = some 0 :=
  rfl

/-- An exponent starts with its mark. -/
theorem head_of_exponent? {tail : List Char} {e : Int} (h : exponent? tail = some e) :
    ∀ c ∈ tail.head?, isDigit c = false ∧ c ≠ '.' := by
  cases tail with
  | nil => exact fun c hc => by cases hc
  | cons c rest =>
      intro c' hc'
      cases hc'
      unfold exponent? at h
      dsimp only at h
      split at h
      · next hmark =>
          simp only [Bool.and_eq_true, Bool.or_eq_true, decide_eq_true_eq] at hmark
          rcases hmark.1.1 with rfl | rfl <;> decide
      · cases h

variable {whole fraction tail : List Char} {e : Int}

/-- A moderate exponent is within the limit. -/
theorem clamp_eq (n : Nat) (he : e.natAbs ≤ 400) :
    max (-((n : Int) + 400)) (min ((n : Int) + 400) e) = e := by
  omega

/-- Digits and an exponent are read as they denote. -/
theorem numeral?_whole_exponent (hne : whole ≠ []) (h : whole.all isDigit)
    (htail : exponent? tail = some e) (he : e.natAbs ≤ 400) :
    numeral? (whole ++ tail) = some ⟨digitsValue whole, e⟩ := by
  have hhead := head_of_exponent? htail
  have hw := takeWhile_isDigit h tail fun c hc => (hhead c hc).1
  have hempty : whole.isEmpty = false := by simpa using hne
  unfold numeral?
  simp only [hw.1, hw.2]
  split
  · -- an exponent does not start with a point
    exact absurd rfl (hhead '.' rfl).2
  · simp only [List.append_nil, hempty, Bool.false_eq_true, if_false, htail, Option.map_some,
      clamp_eq _ he, List.length_nil, Int.natCast_zero, Int.sub_zero]

/-- So are digits with a point among them and an exponent. -/
theorem numeral?_point_exponent (hne : whole ≠ []) (h : whole.all isDigit)
    (hf : fraction.all isDigit) (htail : exponent? tail = some e) (he : e.natAbs ≤ 400) :
    numeral? (whole ++ '.' :: (fraction ++ tail))
      = some ⟨digitsValue (whole ++ fraction), e - fraction.length⟩ := by
  have hw := takeWhile_isDigit h ('.' :: (fraction ++ tail)) (fun c hc => by cases hc; decide)
  have hfr := takeWhile_isDigit hf tail fun c hc => (head_of_exponent? htail c hc).1
  have hempty : (whole ++ fraction).isEmpty = false := by simpa using fun h' => absurd h' hne
  unfold numeral?
  simp only [hw.1, hw.2, hfr.1, hfr.2, hempty, Bool.false_eq_true, if_false, htail,
    Option.map_some, clamp_eq _ he]

/-- Digits alone are read as a whole number. -/
theorem numeral?_whole (hne : whole ≠ []) (h : whole.all isDigit) :
    numeral? whole = some ⟨digitsValue whole, 0⟩ := by
  have hnumeral := numeral?_whole_exponent hne h exponent?_nil (Nat.zero_le _)
  rwa [List.append_nil] at hnumeral

/-- Digits with a point among them are read as a fraction. -/
theorem numeral?_point (hne : whole ≠ []) (h : whole.all isDigit) (hf : fraction.all isDigit) :
    numeral? (whole ++ '.' :: fraction)
      = some ⟨digitsValue (whole ++ fraction), -fraction.length⟩ := by
  have hnumeral := numeral?_point_exponent hne h hf exponent?_nil (Nat.zero_le _)
  rwa [List.append_nil, Int.zero_sub] at hnumeral

/-- A numeral has plain characters only. -/
theorem isPlain_of_isNumeral {s : String} (h : IsNumeral s) : ∀ c ∈ s.toList, IsPlain c := by
  obtain ⟨whole, fraction, -, hw, hf, hs⟩ := h
  rw [List.all_eq_true] at hw hf
  intro c hc
  rcases hs with hs | ⟨-, hs⟩
  · exact .inl (hw c (hs ▸ hc))
  · rw [hs, List.mem_append, List.mem_cons] at hc
    rcases hc with hc | rfl | hc
    · exact .inl (hw c hc)
    · exact .inr (by decide)
    · exact .inl (hf c hc)

/-- Nothing is prepared in plain characters, and what starts with a digit behind
the sign is no name. -/
theorem ofText?_of_takeSign {s : String} {negative : Bool} {c : Char} {cs : List Char}
    (hplain : ∀ d ∈ s.toList, IsPlain d) (hsign : takeSign s.toList = (negative, c :: cs))
    (hc : isDigit c = true) :
    ofText? s = (numeral? (c :: cs)).map (Decimal.toDouble negative) := by
  have hlower := toLower_digit hc
  unfold ofText?
  simp only [map_toAsciiDigit hplain, unpadded_eq hplain, dropJoins_eq hplain]
  rw [hsign]
  simp only [List.map_cons]
  split
  case h_4 => rfl
  all_goals
    -- the names of infinity and not-a-number start with letters
    next heq =>
      have hlist := congrArg String.toList heq
      rw [String.toList_ofList] at hlist
      have hhead := (List.cons.inj hlist).1
      first | exact absurd hhead hlower.1 | exact absurd hhead hlower.2

/-- A numeral is read without its text being prepared. -/
theorem ofText?_eq_numeral? {s : String} (h : IsNumeral s) :
    ofText? s = (numeral? s.toList).map (Decimal.toDouble false) := by
  obtain ⟨c, cs, hcs, hc⟩ := h.first
  have hsign : takeSign s.toList = (false, c :: cs) := by
    rw [hcs, takeSign_digit hc]
  rw [ofText?_of_takeSign (isPlain_of_isNumeral h) hsign hc, hcs]

/-- A plain numeral denotes a number. -/
theorem ofText?_of_isNumeral {s : String} (h : IsNumeral s) : ∃ x, ofText? s = some x := by
  rw [ofText?_eq_numeral? h]
  obtain ⟨whole, fraction, hne, hw, hf, hs | ⟨-, hs⟩⟩ := h
  · rw [hs, numeral?_whole hne hw]
    exact ⟨_, rfl⟩
  · rw [hs, numeral?_point hne hw hf]
    exact ⟨_, rfl⟩

end Double

end Lox

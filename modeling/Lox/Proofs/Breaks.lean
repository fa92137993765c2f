/-
Where a token ends.

Numbers, words and marks are read as far as they reach, so what stands
behind a token can change it: `1` before `.5` is another number, `=` before
`=` another mark. A blank is part of none of them. Text that is empty or
starts with a blank (`Breaks`) therefore leaves every length as it is, and
with the lengths the event at the front (`Scans.extend`); only a string that
is not closed reads on.

In the other direction, what stands behind a token can be taken away: the
characters of a token, alone, are read as that token (`Scans.alone`).
-/
import Lox.Proofs.Scanning

namespace Lox.Scanner

-- ================================================================= breaks

/-- Text that is empty or starts with a blank. -/
def Breaks (more : List Char) : Prop :=
  ∀ c ∈ more.head?, Text.isBlank c = true

/-- Text that starts with a blank is a break. -/
theorem breaks_cons {c : Char} (h : Text.isBlank c = true) (rest : List Char) :
    Breaks (c :: rest) := by
  intro d hd
  cases hd
  exact h

/-- So is text that starts with a line feed. -/
theorem breaks_line_feed (rest : List Char) : Breaks ('\n' :: rest) :=
  breaks_cons (by decide) rest

/-- Blanks are found below and above the printable characters of ASCII. -/
theorem toNat_of_isBlank {c : Char} (h : Text.isBlank c = true) :
    c.toNat ≤ 0x20 ∨ 0x85 ≤ c.toNat := by
  simp only [Text.isBlank, Text.isSpace, Text.isSeparator, Bool.or_eq_true, Bool.and_eq_true,
    decide_eq_true_eq, beq_iff_eq] at h
  omega

/-- The digits are between the codes of `0` and `9`. -/
theorem toNat_of_isDigit {c : Char} (h : isDigit c = true) : 0x30 ≤ c.toNat ∧ c.toNat ≤ 0x39 := by
  simp only [isDigit, Double.isDigit, Bool.and_eq_true, decide_eq_true_eq] at h
  exact h

/-- The characters of words are between the codes of `0` and `z`. -/
theorem toNat_of_isWordChar {c : Char} (h : isWordChar c = true) :
    0x30 ≤ c.toNat ∧ c.toNat ≤ 0x7A := by
  simp only [isWordChar, isWordStart, Bool.or_eq_true, Bool.and_eq_true, decide_eq_true_eq] at h
  rcases h with ((rfl | ⟨hlo, hhi⟩) | ⟨hlo, hhi⟩) | hdigit
  · decide
  · have h₁ : 0x61 ≤ c.toNat := hlo
    have h₂ : c.toNat ≤ 0x7A := hhi
    omega
  · have h₁ : 0x41 ≤ c.toNat := hlo
    have h₂ : c.toNat ≤ 0x5A := hhi
    omega
  · have := toNat_of_isDigit hdigit
    omega

theorem isDigit_of_isBlank {c : Char} (h : Text.isBlank c = true) : isDigit c = false := by
  rw [← Bool.not_eq_true]
  intro hdigit
  have := toNat_of_isBlank h
  have := toNat_of_isDigit hdigit
  omega

theorem isWordChar_of_isBlank {c : Char} (h : Text.isBlank c = true) : isWordChar c = false := by
  rw [← Bool.not_eq_true]
  intro hword
  have := toNat_of_isBlank h
  have := toNat_of_isWordChar hword
  omega

-- ============================================================ the lengths

/-- What is taken by a predicate that no blank has ends before a break. -/
theorem takeWhile_breaks {p : Char → Bool} (hp : ∀ c, Text.isBlank c = true → p c = false)
    {more : List Char} (h : Breaks more) (cs : List Char) :
    (cs ++ more).takeWhile p = cs.takeWhile p := by
  induction cs with
  | nil =>
      cases more with
      | nil => rfl
      | cons c more =>
          rw [List.nil_append, List.takeWhile_cons, hp c (h c rfl)]
          rfl
  | cons c cs ih => rw [List.cons_append, List.takeWhile_cons, List.takeWhile_cons, ih]

section

variable {more : List Char} (h : Breaks more)

include h

/-- A number does not go on behind a break. -/
theorem numberLength_breaks (cs : List Char) : numberLength (cs ++ more) = numberLength cs := by
  have hdigits := takeWhile_breaks (fun _ => isDigit_of_isBlank) h
  have hwhole := (List.takeWhile_prefix (l := cs) isDigit).length_le
  simp only [numberLength, hdigits, List.drop_append_of_le_length hwhole]
  rcases cs.drop (cs.takeWhile isDigit).length with _ | ⟨c, rest⟩
  · cases more with
    | nil => rfl
    | cons b more =>
        have hb : b ≠ '.' := by
          rintro rfl
          exact absurd (h '.' rfl) (by decide)
        simp [hb]
  · by_cases hc : c = '.'
    · subst hc
      simp only [List.cons_append, hdigits]
    · simp [hc]

theorem wordLength_breaks (cs : List Char) : wordLength (cs ++ more) = wordLength cs := by
  unfold wordLength
  rw [takeWhile_breaks (fun _ => isWordChar_of_isBlank) h]

theorem symbol?_breaks (c : Char) (rest : List Char) :
    symbol? (c :: rest ++ more) = symbol? (c :: rest) := by
  have hequal (tail t : List Char) (htail : ∀ t, tail ≠ '=' :: t) : tail ++ more ≠ '=' :: t := by
    intro heq
    cases tail with
    | nil =>
        rw [List.nil_append] at heq
        rw [heq] at h
        exact absurd (h '=' rfl) (by decide)
    | cons d tail =>
        injection heq with hd
        exact htail tail (by rw [hd])
  by_cases hmem : c ∈ markStarts
  · have hsome : symbol? (c :: rest) ≠ none := fun h => symbol?_eq_none_iff.1 h hmem
    revert hsome
    fun_cases symbol? (c :: rest) <;> intro hsome
    -- the marks that an equals sign would have made longer
    case case5 tail h => exact symbol?.eq_5 _ fun t => hequal tail t h
    case case6 tail h => exact symbol?.eq_6 _ fun t => hequal tail t h
    case case7 tail h => exact symbol?.eq_7 _ fun t => hequal tail t h
    case case8 tail h => exact symbol?.eq_8 _ fun t => hequal tail t h
    case case20 => exact absurd rfl hsome
    all_goals rfl
  · rw [symbol?_eq_none_iff.2 hmem, List.cons_append, symbol?_eq_none_iff.2 hmem]

/-- With a break behind it, a text still has no blank and no comment in
front. -/
theorem Leadless.breaks {c : Char} {rest : List Char} (hlead : Leadless (c :: rest)) :
    Leadless (c :: rest ++ more) := by
  rw [List.cons_append]
  rw [leadless_cons_iff] at hlead ⊢
  refine ⟨hlead.1, ?_⟩
  rintro ⟨rfl, hhead⟩
  cases rest with
  | nil => exact absurd (h '/' hhead) (by decide)
  | cons d rest => exact hlead.2 ⟨rfl, hhead⟩

end

-- ============================================================ text behind

/-- The scanner of a text with more text behind it. -/
def extend (s : Scanner) (more : List Char) : Scanner :=
  { s with rest := s.rest ++ more }

section

variable (s : Scanner) (more : List Char)

@[simp]
theorem rest_extend : (s.extend more).rest = s.rest ++ more := rfl

theorem drop_extend {n : Nat} (h : n ≤ s.rest.length) :
    (s.extend more).drop n = (s.drop n).extend more := by
  simp only [drop, extend, List.drop_append_of_le_length h]

theorem pass_extend {n : Nat} (h : n ≤ s.rest.length) :
    (s.extend more).pass n = (s.pass n).extend more := by
  simp only [pass, drop, extend, List.drop_append_of_le_length h, List.take_append_of_le_length h]

theorem tokenOf_extend {n : Nat} (h : n ≤ s.rest.length) (kind : Kind) (literal : Option String) :
    (s.extend more).tokenOf kind n literal = s.tokenOf kind n literal := by
  simp only [tokenOf, extend, List.take_append_of_le_length h]

end

section

variable {s : Scanner} {more : List Char}

/-- With text behind it, a scanner has the same character in front. -/
theorem rest_extend_cons {c : Char} {rest : List Char} (hs : s.rest = c :: rest)
    (more : List Char) : (s.extend more).rest = c :: (rest ++ more) := by
  rw [rest_extend, hs, List.cons_append]

-- A string ends at its quote. Any other event stays the same before more text
-- if its length does.

/-- A string is read the same with any text behind it, since its closing quote
is there. -/
theorem scans_string_extend {body after : List Char} (hs : s.rest = '"' :: (body ++ '"' :: after))
    (hbody : '"' ∉ body) :
    Scans (s.extend more) (s.tokenOf .string (body.length + 2) (some (String.ofList body)))
      ((s.pass (body.length + 2)).extend more) := by
  have hle : body.length + 2 ≤ s.rest.length := by
    rw [hs]
    simp
  have hs' : (s.extend more).rest = '"' :: (body ++ '"' :: (after ++ more)) := by
    rw [rest_extend_cons hs more, List.append_assoc, List.cons_append]
  rw [← tokenOf_extend s more hle, ← pass_extend _ _ hle]
  exact .string hs' hbody

/-- A number is read the same if its length is. -/
theorem scans_number_extend {c : Char} {rest : List Char} (hs : s.rest = c :: rest) (hq : c ≠ '"')
    (hd : isDigit c = true) (hlength : numberLength (s.rest ++ more) = numberLength s.rest) :
    Scans (s.extend more)
      (s.tokenOf .number (numberLength s.rest)
        ((Double.ofText? (String.ofList (s.rest.take (numberLength s.rest)))).map
          Double.literalText))
      ((s.drop (numberLength s.rest)).extend more) := by
  have hle := numberLength_le s.rest
  have h := Scans.number (rest_extend_cons hs more) hq hd
  rwa [rest_extend, hlength, List.take_append_of_le_length hle, tokenOf_extend _ _ hle,
    drop_extend _ _ hle] at h

theorem scans_word_extend {c : Char} {rest : List Char} (hs : s.rest = c :: rest) (hq : c ≠ '"')
    (hd : isDigit c = false) (hw : isWordStart c = true)
    (hlength : wordLength (s.rest ++ more) = wordLength s.rest) :
    Scans (s.extend more)
      (s.tokenOf (.ofWord (String.ofList (s.rest.take (wordLength s.rest)))) (wordLength s.rest)
        none)
      ((s.drop (wordLength s.rest)).extend more) := by
  have hle := wordLength_le s.rest
  have h := Scans.word (rest_extend_cons hs more) hq hd hw
  rwa [rest_extend, hlength, List.take_append_of_le_length hle, tokenOf_extend _ _ hle,
    drop_extend _ _ hle] at h

theorem scans_mark_extend {c : Char} {rest : List Char} {kind : Kind} {n : Nat}
    (hs : s.rest = c :: rest) (hc : IsMark c) (hk : symbol? s.rest = some (kind, n))
    (hsymbol : symbol? (s.rest ++ more) = symbol? s.rest) :
    Scans (s.extend more) (s.tokenOf kind n none) ((s.drop n).extend more) := by
  have hle := symbol?_le hk
  rw [← tokenOf_extend s more hle, ← drop_extend _ _ hle]
  exact .mark (rest_extend_cons hs _) hc (hsymbol.trans hk)

end

/-- An event other than a string that is not closed stays the same before
text that breaks off. -/
theorem Scans.extend {s s' : Scanner} {e : Event} (h : Scans s e s')
    (hclosed : ∀ err, e = .error err → err.fault ≠ .unterminatedString) {more : List Char}
    (hmore : Breaks more) : Scans (s.extend more) e (s'.extend more) := by
  have hsymbol {c : Char} {rest : List Char} (hs : s.rest = c :: rest) :
      symbol? (s.rest ++ more) = symbol? s.rest := by
    rw [hs, symbol?_breaks hmore]
  cases h with
  | string hs hbody => exact scans_string_extend hs hbody
  | openString _ _ => exact absurd rfl (hclosed _ rfl)
  | number hs hq hd => exact scans_number_extend hs hq hd (numberLength_breaks hmore _)
  | word hs hq hd hw => exact scans_word_extend hs hq hd hw (wordLength_breaks hmore _)
  | mark hs hc hk => exact scans_mark_extend hs hc hk (hsymbol hs)
  | bad hs hc hk =>
      rw [← drop_extend _ _ (by rw [hs]; simp)]
      exact .bad (rest_extend_cons hs _) hc ((hsymbol hs).trans hk)

-- ============================================================== cut short

theorem takeWhile_of_all {p : Char → Bool} {cs : List Char} (h : cs.all p = true) :
    cs.takeWhile p = cs := by
  have happend : (cs ++ []).takeWhile p = cs ++ [].takeWhile p :=
    List.takeWhile_append_of_pos (List.all_eq_true.1 h)
  rwa [List.append_nil, List.takeWhile_nil, List.append_nil] at happend

/-- Digits alone are a number. -/
theorem numberLength_whole {whole : List Char} (h : whole.all isDigit = true) :
    numberLength whole = whole.length := by
  simp only [numberLength, takeWhile_of_all h, List.drop_length]

/-- So are digits, a point, and digits behind it. -/
theorem numberLength_point {whole fraction : List Char} (h : whole.all isDigit = true)
    (hf : fraction.all isDigit = true) (hne : fraction ≠ []) :
    numberLength (whole ++ '.' :: fraction) = (whole ++ '.' :: fraction).length := by
  have hwhole := (Double.takeWhile_isDigit h ('.' :: fraction) (fun c hc => by cases hc; rfl)).1
  have hwhole' : (whole ++ '.' :: fraction).takeWhile isDigit = whole := hwhole
  have hlength : fraction.length ≠ 0 := fun hnil => hne (List.length_eq_zero_iff.1 hnil)
  simp only [numberLength, hwhole', List.drop_left, takeWhile_of_all hf, if_neg hlength,
    List.length_append, List.length_cons]
  omega

/-- The characters of a number, alone, are a number of the same length. -/
theorem numberLength_take (cs : List Char) :
    numberLength (cs.take (numberLength cs)) = numberLength cs := by
  have hlength : (cs.take (numberLength cs)).length = numberLength cs := by
    rw [List.length_take, Nat.min_eq_left (numberLength_le cs)]
  have hwhole : (cs.takeWhile isDigit).all isDigit = true := List.all_takeWhile
  obtain ⟨fraction, hfraction, htake | ⟨hne, htake⟩⟩ := take_numberLength cs
  · have hdigits := numberLength_whole hwhole
    rwa [← htake, hlength] at hdigits
  · have hpoint := numberLength_point hwhole hfraction hne
    rwa [← htake, hlength] at hpoint

/-- Cut off at its end, a word is as long as before. -/
theorem wordLength_take (cs : List Char) :
    wordLength (cs.take (wordLength cs)) = wordLength cs := by
  have htake : cs.take (wordLength cs) = cs.takeWhile isWordChar :=
    (List.prefix_iff_eq_take.1 (List.takeWhile_prefix _)).symm
  rw [htake, wordLength, takeWhile_of_all List.all_takeWhile, wordLength]

/-- Cut off at its end, a mark is the same mark. -/
theorem symbol?_take {cs : List Char} {kind : Kind} {n : Nat} (h : symbol? cs = some (kind, n)) :
    symbol? (cs.take n) = some (kind, n) := by
  unfold symbol? at h
  split at h <;> cases h <;> rfl

/-- The scanner of the next characters alone. -/
def alone (s : Scanner) (n : Nat) : Scanner :=
  { s with rest := s.rest.take n }

@[simp]
theorem rest_alone (s : Scanner) (n : Nat) : (s.alone n).rest = s.rest.take n := rfl

theorem rest_alone_cons {s : Scanner} {c : Char} {rest : List Char} (hs : s.rest = c :: rest)
    {n : Nat} (hn : 0 < n) : (s.alone n).rest = c :: rest.take (n - 1) := by
  obtain ⟨k, rfl⟩ := Nat.exists_eq_add_of_lt hn
  rw [rest_alone, hs, Nat.zero_add, List.take_succ_cons, Nat.add_sub_cancel]

/-- Cutting off the text behind a token does not change it. -/
theorem tokenOf_alone (s : Scanner) (n : Nat) (kind : Kind) (literal : Option String) :
    (s.alone n).tokenOf kind n literal = s.tokenOf kind n literal := by
  simp only [tokenOf, rest_alone, List.take_take, Nat.min_self]
  rfl

/-- Behind a token that stands alone there is nothing. -/
theorem rest_drop_alone (s : Scanner) (n : Nat) : ((s.alone n).drop n).rest = [] := by
  rw [rest_drop, rest_alone, List.drop_take_self]

/-- The characters of a token, alone, are read as that token, and up to their
end. -/
theorem Scans.alone {s s' : Scanner} {t : Token} (h : Scans s (.token t) s') :
    ∃ n s'', t.lexeme.toList = s.rest.take n ∧ Scans (s.alone n) (.token t) s''
      ∧ s''.rest = [] := by
  have hlexeme {kind : Kind} {n : Nat} {literal : Option String}
      (ht : Event.token t = s.tokenOf kind n literal) : t.lexeme.toList = s.rest.take n := by
    cases ht
    exact String.toList_ofList
  generalize he : Event.token t = e at h
  cases h with
  | @string body after hs hbody =>
      have hs' : (s.alone (body.length + 2)).rest = '"' :: (body ++ '"' :: []) := by
        rw [rest_alone, hs, List.take_succ_cons, List.take_length_add_append]
        rfl
      have hscans := Scans.string hs' hbody
      rw [tokenOf_alone] at hscans
      exact ⟨_, _, hlexeme he, hscans, rest_drop_alone s _⟩
  | number hs hq hd =>
      have hscans := Scans.number
        (rest_alone_cons hs (n := numberLength s.rest) (by rw [hs]; exact numberLength_pos hd)) hq hd
      rw [rest_alone, numberLength_take, List.take_take, Nat.min_self, tokenOf_alone] at hscans
      exact ⟨_, _, hlexeme he, hscans, rest_drop_alone s _⟩
  | word hs hq hd hw =>
      have hscans := Scans.word
        (rest_alone_cons hs (n := wordLength s.rest) (by rw [hs]; exact wordLength_pos hw)) hq hd hw
      rw [rest_alone, wordLength_take, List.take_take, Nat.min_self, tokenOf_alone] at hscans
      exact ⟨_, _, hlexeme he, hscans, rest_drop_alone s _⟩
  | mark hs hc hk =>
      have hscans := Scans.mark (rest_alone_cons hs (symbol?_pos hk)) hc (symbol?_take hk)
      rw [tokenOf_alone] at hscans
      exact ⟨_, _, hlexeme he, hscans, rest_drop_alone s _⟩
  | openString _ _ => cases he
  | bad _ _ _ => cases he

/-- The first characters of a text without leading trivia have none
either. -/
theorem Leadless.take {cs : List Char} (h : Leadless cs) (n : Nat) : Leadless (cs.take n) := by
  cases cs with
  | nil => rwa [List.take_nil]
  | cons c rest =>
      cases n with
      | zero =>
          intro piece after heq hlead
          have := hlead.length_pos
          have hlength := congrArg List.length heq
          rw [List.length_append] at hlength
          exact absurd hlength (by simp; omega)
      | succ n =>
          rw [List.take_succ_cons, leadless_cons_iff]
          rw [leadless_cons_iff] at h
          refine ⟨h.1, fun ⟨hc, hhead⟩ => h.2 ⟨hc, ?_⟩⟩
          rw [List.head?_take] at hhead
          split at hhead
          · cases hhead
          · exact hhead

end Lox.Scanner

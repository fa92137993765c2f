/-
What a token may touch.

A token ends where it would not be read on. A word is read on into letters,
digits and underscores, a number into digits and, if it has no point yet,
into a point with a digit behind it, a mark into an equals sign that makes
it another mark; and a second slash makes a slash the start of a comment.
`Token.joins` says so for each kind. Before any other text the characters of
a token are read as that token: they were read once, and none of the lengths
changes (`Scans.extend_apart`). Blanks are one case of such text
(`joins_of_breaks`).
-/
import Lox.Proofs.Breaks

namespace Lox

open Scanner (isDigit isWordChar)

/-- The kinds of names and reserved words. -/
def Kind.isWord (k : Kind) : Bool :=
  k = .identifier || k.word?.isSome

/-- Whether a token is read on into text that follows it directly. -/
def Token.joins (t : Token) (more : List Char) : Bool :=
  match t.kind with
  | .number =>
      more.head?.any isDigit
        || (!t.lexeme.toList.contains '.' && more.head? == some '.' && more.tail.head?.any isDigit)
  | .equal | .bang | .less | .greater => more.head? == some '='
  | .slash => more.head? == some '/'
  | kind => kind.isWord && more.head?.any isWordChar

/-- A word is a keyword or a name. -/
theorem Kind.isWord_ofWord (s : String) : (Kind.ofWord s).isWord = true := by
  unfold Kind.isWord
  rcases Kind.ofWord_cases s with h | h <;> rw [h] <;> simp

/-- What a word is read on into. -/
theorem Token.joins_of_isWord {t : Token} (h : t.kind.isWord = true) (more : List Char) :
    t.joins more = more.head?.any isWordChar := by
  unfold joins
  split
  all_goals first
    | rw [h, Bool.true_and]
    | next hkind => rw [hkind] at h; cases h

/-- What a number is not read on into. -/
theorem Token.joins_number {t : Token} (hkind : t.kind = .number) {more : List Char}
    (h : t.joins more = false) :
    more.head?.any isDigit = false
      ∧ ('.' ∉ t.lexeme.toList → more.head? = some '.' → more.tail.head?.any isDigit = false) := by
  unfold joins at h
  rw [hkind] at h
  simp only [Bool.or_eq_false_iff] at h
  refine ⟨h.1, fun hnot hhead => ?_⟩
  simpa [hnot, hhead] using h.2

/-- The marks that an equals sign makes longer. -/
def Kind.growing : List Kind :=
  [.equal, .bang, .less, .greater]

/-- What follows a mark that could be made longer does not begin with an equals
sign. -/
theorem Token.joins_growing {t : Token} {more : List Char} (h : t.joins more = false)
    (hkind : t.kind ∈ Kind.growing) : more.head? ≠ some '=' := by
  unfold joins at h
  simp only [Kind.growing, List.mem_cons, List.not_mem_nil, or_false] at hkind
  rcases hkind with hkind | hkind | hkind | hkind <;> rw [hkind] at h <;> simpa using h

namespace Scanner

-- ============================================================ the lengths

/-- A run of characters of one class stops before a character of another. -/
theorem takeWhile_apart {p : Char → Bool} {cs more : List Char} (hcs : cs.all p = true)
    (hmore : more.head?.any p = false) : (cs ++ more).takeWhile p = cs := by
  have hstop : more.takeWhile p = [] := by
    cases more with
    | nil => rfl
    | cons c more => exact List.takeWhile_cons_of_neg (by simpa using hmore)
  rw [List.takeWhile_append_of_pos (List.all_eq_true.1 hcs), hstop, List.append_nil]

/-- A word is not made longer by text that starts with no word character. -/
theorem wordLength_apart {cs more : List Char} (hcs : cs.drop (wordLength cs) = [])
    (hmore : more.head?.any isWordChar = false) : wordLength (cs ++ more) = wordLength cs := by
  have hwhole : cs.takeWhile isWordChar = cs :=
    (List.takeWhile_prefix _).eq_of_length_le (List.drop_eq_nil_iff.1 hcs)
  have hall : cs.all isWordChar = true := by
    rw [← hwhole]
    exact List.all_takeWhile
  unfold wordLength
  rw [takeWhile_apart hall hmore, hwhole]

/-- A number is not made longer by text that starts neither with a digit nor,
unless it has a point, with a fraction. -/
theorem numberLength_apart {cs more : List Char} (hcs : cs.drop (numberLength cs) = [])
    (hdigit : more.head?.any isDigit = false)
    (hpoint : '.' ∉ cs → more.head? = some '.' → more.tail.head?.any isDigit = false) :
    numberLength (cs ++ more) = numberLength cs := by
  have htaken : cs.take (numberLength cs) = cs := List.take_of_length_le (List.drop_eq_nil_iff.1 hcs)
  have hwhole : (cs.takeWhile isDigit).all isDigit = true := List.all_takeWhile
  obtain ⟨fraction, hfraction, htake | ⟨hne, htake⟩⟩ := take_numberLength cs
  · -- digits alone, which a point and a digit would continue
    rw [htaken] at htake
    rw [← htake] at hwhole
    rw [numberLength_whole hwhole]
    simp only [numberLength, takeWhile_apart hwhole hdigit, List.drop_left]
    split
    · next rest =>
        have hnot : '.' ∉ cs := fun hmem =>
          absurd (List.all_eq_true.1 hwhole _ hmem) (by decide)
        have hrest : ([] ++ rest).takeWhile isDigit = [] :=
          takeWhile_apart rfl (hpoint hnot rfl)
        rw [List.nil_append] at hrest
        rw [hrest]
        rfl
    · rfl
  · rw [htaken] at htake
    -- with a point already, only a digit would continue the number
    have hlength : fraction.length ≠ 0 := fun hnil => hne (List.length_eq_zero_iff.1 hnil)
    rw [htake, numberLength_point hwhole hfraction hne, List.append_assoc, List.cons_append]
    have hdigits : (cs.takeWhile isDigit ++ '.' :: (fraction ++ more)).takeWhile isDigit
        = cs.takeWhile isDigit := takeWhile_apart hwhole rfl
    have hfraction' : (fraction ++ more).takeWhile isDigit = fraction :=
      takeWhile_apart hfraction hdigit
    simp only [numberLength, hdigits, List.drop_left, hfraction', if_neg hlength,
      List.length_append, List.length_cons]
    omega

/-- A mark is not made longer by text without an equals sign. -/
theorem symbol?_apart {cs more : List Char} {kind : Kind} {n : Nat}
    (hk : symbol? cs = some (kind, n)) (hcs : cs.drop n = [])
    (hmore : kind ∈ Kind.growing → more.head? ≠ some '=') :
    symbol? (cs ++ more) = some (kind, n) := by
  have hequal (h : kind ∈ Kind.growing) (t : List Char) : more ≠ '=' :: t :=
    fun heq => hmore h (by rw [heq]; rfl)
  unfold symbol? at hk
  split at hk <;> cases hk <;> simp only [List.drop_succ_cons, List.drop_zero] at hcs <;> subst hcs
  case h_5 => exact symbol?.eq_5 _ (hequal (by decide))
  case h_6 => exact symbol?.eq_6 _ (hequal (by decide))
  case h_7 => exact symbol?.eq_7 _ (hequal (by decide))
  case h_8 => exact symbol?.eq_8 _ (hequal (by decide))
  all_goals rfl

-- ============================================================== one token

/-- The characters of a token are read as that token before all text that it
is not read on into. -/
theorem Scans.extend_apart {s s' : Scanner} {t : Token} (h : Scans s (.token t) s')
    (hend : s'.rest = []) {more : List Char} (hmore : t.joins more = false) :
    Scans (s.extend more) (.token t) (s'.extend more) := by
  generalize he : Event.token t = e at h
  cases h with
  | string hs hbody => exact scans_string_extend hs hbody
  | number hs hq hd =>
      cases he
      obtain ⟨hdigit, hpoint⟩ := Token.joins_number rfl hmore
      refine scans_number_extend hs hq hd (numberLength_apart hend hdigit fun hnot => ?_)
      apply hpoint
      rw [String.toList_ofList]
      exact fun hmem => hnot (List.mem_of_mem_take hmem)
  | word hs hq hd hw =>
      cases he
      rw [Token.joins_of_isWord (Kind.isWord_ofWord _)] at hmore
      exact scans_word_extend hs hq hd hw (wordLength_apart hend hmore)
  | mark hs hc hk =>
      cases he
      have hsymbol := symbol?_apart hk hend (Token.joins_growing hmore)
      exact scans_mark_extend hs hc hk (hsymbol.trans hk.symm)
  | openString _ _ | bad _ _ _ => cases he

/-- A token that starts with a slash is one. -/
theorem Scans.kind_of_slash {s s' : Scanner} {t : Token} (h : Scans s (.token t) s')
    {rest : List Char} (hrest : s.rest = '/' :: rest) : t.kind = .slash := by
  have hslash := scanToken_of_scans h
  unfold scanToken at hslash
  rw [hrest] at hslash
  cases hslash
  rfl

/-- Nor do they become a comment. -/
theorem Scans.leadless_apart {s s' : Scanner} {t : Token} (h : Scans s (.token t) s')
    (hlead : Leadless s.rest) {more : List Char} (hmore : t.joins more = false) :
    Leadless (s.rest ++ more) := by
  obtain ⟨c, rest, hs⟩ := List.exists_cons_of_ne_nil h.rest_ne_nil
  rw [hs] at hlead
  rw [hs, List.cons_append]
  rw [leadless_cons_iff] at hlead ⊢
  refine ⟨hlead.1, ?_⟩
  rintro ⟨rfl, hhead⟩
  cases rest with
  | nil =>
      -- a slash at the end of the token is the token
      unfold Token.joins at hmore
      rw [h.kind_of_slash hs] at hmore
      rw [List.nil_append] at hhead
      simp [hhead] at hmore
  | cons d rest => exact hlead.2 ⟨rfl, hhead⟩

/-- A token is not read on into text that breaks off. -/
theorem joins_of_breaks {more : List Char} (h : Breaks more) (t : Token) :
    t.joins more = false := by
  cases more with
  | nil =>
      unfold Token.joins
      split <;> simp
  | cons c more =>
      have hblank := h c rfl
      have hne {d : Char} (hd : Text.isBlank d = false) : c ≠ d := by
        rintro rfl
        rw [hblank] at hd
        cases hd
      have hdigit := isDigit_of_isBlank hblank
      have hword := isWordChar_of_isBlank hblank
      have hequal : c ≠ '=' := hne (by decide)
      have hslash : c ≠ '/' := hne (by decide)
      have hpoint : c ≠ '.' := hne (by decide)
      unfold Token.joins
      split <;> simp [hdigit, hword, hequal, hslash, hpoint]

end Scanner

end Lox

/-
What the scanner does in one step.

# Trivia

Blanks and comments come in pieces, and `Lead` says what a piece is: a blank,
or a comment up to the end of its line. Trivia are skipped piece by piece
(`skipTrivia_lead`) until no piece leads (`leadless_skipTrivia`), so facts
about skipping are proved by induction over the pieces (`leadInduction`).

# Events

`Scans s e s'` says what reading one event at `s` can be: a string, a string
that is not closed, a number, a word, a mark, or a character that starts
nothing, each with the condition under which the scanner takes it. The
conditions exclude each other, so that this is exactly the scanner's step
(`scanToken_eq_iff`).
-/
import Lox.Scanner
import Lox.Proofs.Source

namespace Lox.Scanner

-- ================================================================ trivia

/-- `Lead piece after`: before `after`, the characters `piece` are a blank or
a comment up to the end of its line. -/
inductive Lead : List Char → List Char → Prop where
  | blank {c : Char} (after : List Char) : Text.isBlank c = true → Lead [c] after
  | comment {line after : List Char} :
      '\n' ∉ line → (∀ c ∈ after.head?, c = '\n') → Lead ('/' :: '/' :: line) after

theorem Lead.length_pos {piece after : List Char} (h : Lead piece after) : 0 < piece.length := by
  cases h <;> simp

/-- An open comment is passed up to the next line feed, and trivia go on
there. -/
theorem triviaLength_line {line after : List Char} (hline : '\n' ∉ line)
    (hafter : ∀ c ∈ after.head?, c = '\n') :
    triviaLength true (line ++ after) = line.length + triviaLength false after := by
  induction line with
  | nil =>
      cases after with
      | nil => rfl
      | cons c rest =>
          obtain rfl := hafter c rfl
          have hblank : Text.isBlank '\n' = true := by decide
          simp [triviaLength, hblank]
  | cons c line ih =>
      rw [List.mem_cons, not_or] at hline
      have hc : (c != '\n') = true := by simpa using Ne.symm hline.1
      rw [List.cons_append, triviaLength, hc, ih hline.2, List.length_cons]
      omega

/-- A piece of space or comment adds its length to what is passed. -/
theorem triviaLength_lead {piece after : List Char} (h : Lead piece after) :
    triviaLength false (piece ++ after) = piece.length + triviaLength false after := by
  cases h with
  | blank _ hc => simp [triviaLength, hc]
  | @comment line _ hline hafter =>
      have hblank : Text.isBlank '/' = false := by decide
      have hopen := triviaLength_line hline hafter
      have hslash : ('/' != '\n') = true := by decide
      simp only [List.cons_append, triviaLength, hblank, List.head?_cons, beq_self_eq_true,
        decide_true, Bool.and_true, if_true, Bool.false_eq_true, if_false, hslash, hopen,
        List.length_cons]
      omega

/-- Every text is a line and what comes after it. -/
theorem exists_line (cs : List Char) :
    ∃ line after, cs = line ++ after ∧ '\n' ∉ line ∧ ∀ c ∈ after.head?, c = '\n' := by
  induction cs with
  | nil => exact ⟨[], [], rfl, List.not_mem_nil, fun c hc => by cases hc⟩
  | cons c cs ih =>
      by_cases hc : c = '\n'
      · refine ⟨[], c :: cs, rfl, List.not_mem_nil, fun d hd => ?_⟩
        cases hd
        exact hc
      · obtain ⟨line, after, rfl, hline, hafter⟩ := ih
        refine ⟨c :: line, after, rfl, ?_, hafter⟩
        rw [List.mem_cons, not_or]
        exact ⟨Ne.symm hc, hline⟩

/-- A text at whose front there is no blank and no comment. -/
def Leadless (cs : List Char) : Prop :=
  ∀ piece after, cs = piece ++ after → ¬ Lead piece after

/-- No trivia lead exactly if the first character is not blank and the first
two are not the slashes of a comment. -/
theorem leadless_cons_iff {c : Char} {rest : List Char} :
    Leadless (c :: rest) ↔ Text.isBlank c = false ∧ ¬ (c = '/' ∧ rest.head? = some '/') := by
  constructor
  · intro h
    refine ⟨?_, ?_⟩
    · rw [← Bool.not_eq_true]
      exact fun hc => h [c] rest rfl (.blank rest hc)
    · rintro ⟨rfl, hhead⟩
      obtain ⟨body, rfl⟩ := List.head?_eq_some_iff.1 hhead
      obtain ⟨line, after, rfl, hline, hafter⟩ := exists_line body
      exact h ('/' :: '/' :: line) after rfl (.comment hline hafter)
  · intro ⟨hblank, hslashes⟩ piece after heq hlead
    cases hlead with
    | blank _ hc =>
        cases heq
        rw [hblank] at hc
        cases hc
    | comment _ _ =>
        cases heq
        exact hslashes ⟨rfl, rfl⟩

theorem Leadless.isBlank {c : Char} {cs : List Char} (h : Leadless (c :: cs)) :
    Text.isBlank c = false :=
  (leadless_cons_iff.1 h).1

/-- Where no space or comment begins, nothing is passed. -/
theorem Leadless.triviaLength {cs : List Char} (h : Leadless cs) : triviaLength false cs = 0 := by
  cases cs with
  | nil => rfl
  | cons c rest =>
      obtain ⟨hblank, hslashes⟩ := leadless_cons_iff.1 h
      rw [Scanner.triviaLength, hblank]
      simpa using hslashes

/-- What holds where no trivia lead, and of a text with one more blank or
comment in front, holds of all texts. -/
theorem leadInduction {P : List Char → Prop} (stop : ∀ cs, Leadless cs → P cs)
    (step : ∀ piece after, Lead piece after → P after → P (piece ++ after)) (cs : List Char) :
    P cs := by
  by_cases h : ∃ piece after, cs = piece ++ after ∧ Lead piece after
  · obtain ⟨piece, after, hcs, hlead⟩ := h
    rw [hcs]
    exact step piece after hlead (leadInduction stop step after)
  · exact stop cs fun piece after hcs hlead => h ⟨piece, after, hcs, hlead⟩
termination_by cs.length
decreasing_by
  have := hlead.length_pos
  rw [hcs, List.length_append]
  omega

/-- Space and comments end with the text. -/
theorem triviaLength_le (cs : List Char) : triviaLength false cs ≤ cs.length := by
  induction cs using leadInduction with
  | stop cs h => rw [h.triviaLength]; exact Nat.zero_le _
  | step piece after hlead ih =>
      rw [triviaLength_lead hlead, List.length_append]
      omega

/-- Passing in two goes is passing in one. -/
theorem pass_pass (s : Scanner) (m n : Nat) : (s.pass m).pass n = s.pass (m + n) := by
  unfold pass drop
  simp only [List.drop_drop, List.take_add, List.count_append, Nat.add_assoc]

theorem pass_zero (s : Scanner) : s.pass 0 = s := by
  simp [pass, drop]

/-- A blank or comment in front is passed before the rest of the trivia. -/
theorem skipTrivia_lead {s : Scanner} {piece after : List Char} (hs : s.rest = piece ++ after)
    (h : Lead piece after) : s.skipTrivia = (s.pass piece.length).skipTrivia := by
  rw [skipTrivia, skipTrivia, pass_pass, rest_pass, hs, triviaLength_lead h, List.drop_left]

/-- Nothing is skipped where no space or comment begins. -/
theorem skipTrivia_leadless {s : Scanner} (h : Leadless s.rest) : s.skipTrivia = s := by
  rw [skipTrivia, h.triviaLength, pass_zero]

/-- Trivia are skipped whole. -/
theorem leadless_skipTrivia (s : Scanner) : Leadless s.skipTrivia.rest := by
  generalize hs : s.rest = cs
  induction cs using leadInduction generalizing s with
  | stop cs h =>
      rw [skipTrivia_leadless (hs ▸ h), hs]
      exact h
  | step piece after hlead ih =>
      rw [skipTrivia_lead hs hlead]
      exact ih _ (by rw [rest_pass, hs, List.drop_left])

-- ============================================================ one event

/-- A character that starts neither a string nor a number nor a word. -/
structure IsMark (c : Char) : Prop where
  not_quote : c ≠ '"'
  not_digit : isDigit c = false
  not_word : isWordStart c = false

/-- `Scans s e s'`: the characters at the front of `s` are the event `e`, and
`s'` is behind them. -/
inductive Scans (s : Scanner) : Event → Scanner → Prop where
  | string {body after : List Char} :
      s.rest = '"' :: (body ++ '"' :: after) → '"' ∉ body →
      Scans s (s.tokenOf .string (body.length + 2) (some (String.ofList body)))
        (s.pass (body.length + 2))
  | openString {body : List Char} :
      s.rest = '"' :: body → '"' ∉ body →
      Scans s
        (.error ⟨.unterminatedString, (s.pass s.rest.length).pos, (s.pass s.rest.length).line⟩)
        (s.pass s.rest.length)
  | number {c : Char} {rest : List Char} :
      s.rest = c :: rest → c ≠ '"' → isDigit c = true →
      Scans s
        (s.tokenOf .number (numberLength s.rest)
          ((Double.ofText? (String.ofList (s.rest.take (numberLength s.rest)))).map
            Double.literalText))
        (s.drop (numberLength s.rest))
  | word {c : Char} {rest : List Char} :
      s.rest = c :: rest → c ≠ '"' → isDigit c = false → isWordStart c = true →
      Scans s
        (s.tokenOf (.ofWord (String.ofList (s.rest.take (wordLength s.rest)))) (wordLength s.rest)
          none)
        (s.drop (wordLength s.rest))
  | mark {c : Char} {rest : List Char} {kind : Kind} {n : Nat} :
      s.rest = c :: rest → IsMark c → symbol? s.rest = some (kind, n) →
      Scans s (s.tokenOf kind n none) (s.drop n)
  | bad {c : Char} {rest : List Char} :
      s.rest = c :: rest → IsMark c → symbol? s.rest = none →
      Scans s (.error ⟨.unexpectedCharacter (some c), s.pos, s.line⟩) (s.drop 1)

/-- The characters that operators and punctuation marks start with. -/
def markStarts : List Char :=
  ['=', '!', '<', '>', '(', ')', '{', '}', ',', '.', '-', '+', ';', '*', '/']

/-- A text starts with a mark exactly if its first character starts one. -/
theorem symbol?_eq_none_iff {c : Char} {rest : List Char} :
    symbol? (c :: rest) = none ↔ c ∉ markStarts := by
  constructor
  · intro h hmem
    simp only [markStarts, List.mem_cons, List.not_mem_nil, or_false] at hmem
    unfold symbol? at h
    split at h
    case h_20 =>
      -- no pattern matched, and each start is the first character of one
      rcases hmem with rfl | rfl | rfl | rfl | rfl | rfl | rfl | rfl | rfl | rfl | rfl | rfl | rfl
        | rfl | rfl <;> grind
    all_goals cases h
  · intro h
    unfold symbol?
    split
    case h_20 => rfl
    all_goals
      next heq =>
        cases heq
        exact absurd (by decide) h

/-- A string ends at the first quote. -/
theorem stringLength?_closed {body : List Char} (h : '"' ∉ body) (after : List Char) :
    stringLength? (body ++ '"' :: after) = some body.length := by
  unfold stringLength?
  induction body with
  | nil => simp [List.findIdx?_cons]
  | cons c body ih =>
      rw [List.mem_cons, not_or] at h
      have hc : (c == '"') = false := by simpa using Ne.symm h.1
      rw [List.cons_append, List.findIdx?_cons, hc, ih h.2]
      rfl

/-- Without a quote it does not end. -/
theorem stringLength?_open {body : List Char} (h : '"' ∉ body) : stringLength? body = none := by
  unfold stringLength?
  rw [List.findIdx?_eq_none_iff]
  intro c hc
  rw [beq_eq_false_iff_ne]
  rintro rfl
  exact h hc

/-- What the description of an event says is what the scanner does. -/
theorem scanToken_of_scans {s s' : Scanner} {e : Event} (h : Scans s e s') :
    s.scanToken = (e, s') := by
  cases h with
  | string hs hbody => simp [scanToken, hs, stringLength?_closed hbody]
  | openString hs hbody => simp [scanToken, hs, stringLength?_open hbody]
  | number hs hq hd => simp [scanToken, hs, hq, hd]
  | word hs hq hd hw => simp [scanToken, hs, hq, hd, hw]
  | mark hs hc hk =>
      rw [hs] at hk
      simp [scanToken, hs, hk, hc.not_quote, hc.not_digit, hc.not_word]
  | bad hs hc hk =>
      rw [hs] at hk
      simp [scanToken, hs, hk, hc.not_quote, hc.not_digit, hc.not_word]

/-- Some event is at the front of every scanner that is not at the end. -/
theorem exists_scans {s : Scanner} (h : s.rest ≠ []) : ∃ e s', Scans s e s' := by
  obtain ⟨c, rest, hs⟩ := List.exists_cons_of_ne_nil h
  by_cases hq : c = '"'
  · subst hq
    by_cases hmem : '"' ∈ rest
    · obtain ⟨body, after, rfl, hbody⟩ := List.eq_append_cons_of_mem hmem
      exact ⟨_, _, .string hs hbody⟩
    · exact ⟨_, _, .openString hs hmem⟩
  · cases hd : isDigit c with
    | true => exact ⟨_, _, .number hs hq hd⟩
    | false =>
        cases hw : isWordStart c with
        | true => exact ⟨_, _, .word hs hq hd hw⟩
        | false =>
            cases hk : symbol? s.rest with
            | none => exact ⟨_, _, .bad hs ⟨hq, hd, hw⟩ hk⟩
            | some mark => exact ⟨_, _, .mark hs ⟨hq, hd, hw⟩ hk⟩

/-- The scanner's step is the one that its front asks for. -/
theorem scanToken_eq_iff {s s' : Scanner} {e : Event} (h : s.rest ≠ []) :
    s.scanToken = (e, s') ↔ Scans s e s' := by
  constructor
  · intro heq
    obtain ⟨e', s'', hscans⟩ := exists_scans h
    rw [scanToken_of_scans hscans] at heq
    cases heq
    exact hscans
  · exact scanToken_of_scans

/-- Where text is left, the scanner's event is one that was described. -/
theorem scans_scanToken {s : Scanner} (h : s.rest ≠ []) :
    Scans s (s.scanToken).1 (s.scanToken).2 :=
  (scanToken_eq_iff h).1 rfl

/-- A scan with nothing but trivia ahead is at its end. -/
theorem events_of_end {s : Scanner} (h : s.skipTrivia.rest = []) :
    s.events = [.token s.skipTrivia.endToken] := by
  rw [events, dif_pos h]

/-- There is no event at the end of the text. -/
theorem Scans.rest_ne_nil {s s' : Scanner} {e : Event} (h : Scans s e s') : s.rest ≠ [] := by
  cases h <;> simp_all

/-- A scan is the event behind the trivia, and the scan from there on. -/
theorem events_of_scans {s s' : Scanner} {e : Event} (h : Scans s.skipTrivia e s') :
    s.events = e :: s'.events := by
  rw [events, dif_neg h.rest_ne_nil, scanToken_of_scans h]

-- ============================================================= advancing

/-- A number ends with the text at the latest. -/
theorem numberLength_le (cs : List Char) : numberLength cs ≤ cs.length := by
  have hwhole := (List.takeWhile_prefix (l := cs) isDigit).length_le
  simp only [numberLength]
  split
  · next rest hrest =>
      have hfraction := (List.takeWhile_prefix (l := rest) isDigit).length_le
      have hlength := congrArg List.length hrest
      rw [List.length_drop, List.length_cons] at hlength
      split <;> omega
  · exact hwhole

theorem wordLength_le (cs : List Char) : wordLength cs ≤ cs.length :=
  (List.takeWhile_prefix isWordChar).length_le

theorem symbol?_le {cs : List Char} {kind : Kind} {n : Nat} (h : symbol? cs = some (kind, n)) :
    n ≤ cs.length := by
  unfold symbol? at h
  split at h <;> cases h <;> simp

-- The characters that a number, a word and a mark are made of.

/-- A number consists of digits and a point. -/
theorem isDigit_or_point_of_mem {cs : List Char} {c : Char} (h : c ∈ cs.take (numberLength cs)) :
    isDigit c = true ∨ c = '.' := by
  have hwhole : (cs.takeWhile isDigit).all isDigit = true := List.all_takeWhile
  obtain ⟨fraction, hfraction, htake | ⟨-, htake⟩⟩ := take_numberLength cs
  · rw [htake] at h
    exact .inl (List.all_eq_true.1 hwhole c h)
  · rw [htake, List.mem_append, List.mem_cons] at h
    rcases h with h | h | h
    · exact .inl (List.all_eq_true.1 hwhole c h)
    · exact .inr h
    · exact .inl (List.all_eq_true.1 hfraction c h)

/-- A word consists of word characters. -/
theorem isWordChar_of_mem_word {cs : List Char} {c : Char} (h : c ∈ cs.take (wordLength cs)) :
    isWordChar c = true := by
  have htake : cs.take (wordLength cs) = cs.takeWhile isWordChar :=
    (List.prefix_iff_eq_take.1 (List.takeWhile_prefix _)).symm
  rw [htake] at h
  exact List.all_eq_true.1 List.all_takeWhile c h

/-- Every character of a mark also starts one. -/
theorem mem_markStarts_of_symbol {cs : List Char} {kind : Kind} {n : Nat}
    (hk : symbol? cs = some (kind, n)) : ∀ c ∈ cs.take n, c ∈ markStarts := by
  unfold symbol? at hk
  split at hk <;> cases hk <;> simp [markStarts]

/-- No number reaches over a line feed. -/
theorem not_mem_take_numberLength (cs : List Char) : '\n' ∉ cs.take (numberLength cs) := by
  intro hmem
  rcases isDigit_or_point_of_mem hmem with h | h <;> exact absurd h (by decide)

theorem not_mem_take_wordLength (cs : List Char) : '\n' ∉ cs.take (wordLength cs) :=
  fun hmem => absurd (isWordChar_of_mem_word hmem) (by decide)

theorem not_mem_take_symbol {cs : List Char} {kind : Kind} {n : Nat}
    (h : symbol? cs = some (kind, n)) : '\n' ∉ cs.take n :=
  fun hmem => absurd (mem_markStarts_of_symbol h _ hmem) (by decide)

/-- Characters without a line feed are passed on the same line. -/
theorem drop_eq_pass {s : Scanner} {n : Nat} (h : '\n' ∉ s.rest.take n) : s.drop n = s.pass n := by
  unfold pass
  rw [List.count_eq_zero.2 h]
  rfl

/-- Reading an event passes its characters; line feeds among them, which only
strings have, are counted. -/
theorem Scans.passes {s s' : Scanner} {e : Event} (h : Scans s e s') (hlead : Leadless s.rest) :
    ∃ n, n ≤ s.rest.length ∧ s' = s.pass n := by
  cases h with
  | string hs hbody =>
      refine ⟨_, ?_, rfl⟩
      rw [hs]
      simp
  | openString hs hbody => exact ⟨_, Nat.le_refl _, rfl⟩
  | number hs _ _ => exact ⟨_, numberLength_le _, drop_eq_pass (not_mem_take_numberLength _)⟩
  | word hs _ _ _ => exact ⟨_, wordLength_le _, drop_eq_pass (not_mem_take_wordLength _)⟩
  | mark hs _ hk => exact ⟨_, symbol?_le hk, drop_eq_pass (not_mem_take_symbol hk)⟩
  | @bad c rest hs _ _ =>
      refine ⟨1, by rw [hs]; simp, drop_eq_pass ?_⟩
      rw [hs] at hlead ⊢
      have hblank := hlead.isBlank
      rw [List.take_succ_cons, List.take_zero, List.mem_singleton]
      rintro rfl
      cases hblank

end Lox.Scanner

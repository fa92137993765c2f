/-
The scanner takes the longest lexeme.

# Lexemes

`Spells cs kind literal` says, class by class, which characters are a lexeme
of which kind and with which literal: strings, numbers, words (reserved or
not) and marks. It knows nothing of what comes behind them.

# Nothing stops short, nothing goes on

If the text ahead starts with some lexeme, the scanner reads a token there,
and one that is no shorter (`Spells.scans`): this is where a number looks
two characters ahead for a point and a digit, and where the marks of two
characters come first. What it reads is itself a lexeme (`Scans.spells`). So
the token is the longest lexeme; and as its kind and literal are decided by
its characters, the longest lexeme decides the token
(`scanToken_of_longest`). Without any lexeme ahead there is an error.
-/
import Lox.Proofs.LineNumbers
import Lox.Proofs.Touching

namespace Lox

open Scanner (isDigit isWordStart isWordChar)

-- ================================================================ lexemes

/-- The operators and punctuation marks. -/
def markTable : List (String × Kind) :=
  [("==", .equalEqual), ("!=", .bangEqual), ("<=", .lessEqual), (">=", .greaterEqual),
    ("=", .equal), ("!", .bang), ("<", .less), (">", .greater), ("(", .leftParen),
    (")", .rightParen), (r"{", .leftBrace), (r"}", .rightBrace), (",", .comma), (".", .dot),
    ("-", .minus), ("+", .plus), (";", .semicolon), ("*", .star), ("/", .slash)]

/-- A letter or underscore, and then letters, underscores and digits. -/
def IsWord (cs : List Char) : Prop :=
  ∃ c rest, cs = c :: rest ∧ isWordStart c = true ∧ rest.all isWordChar = true

/-- `Spells cs kind literal`: the characters are a lexeme of the kind, and
denote the literal if it is a kind with literals. -/
inductive Spells : List Char → Kind → Option String → Prop where
  | string {body : List Char} :
      '"' ∉ body → Spells ('"' :: (body ++ ['"'])) .string (some (String.ofList body))
  | number {cs : List Char} {x : Double} :
      IsNumeral (String.ofList cs) → Double.ofText? (String.ofList cs) = some x →
      Spells cs .number (some x.literalText)
  | reserved {cs : List Char} {kind : Kind} :
      IsWord cs → kind.word? = some (String.ofList cs) → Spells cs kind none
  | name {cs : List Char} :
      IsWord cs → (∀ kind : Kind, kind.word? ≠ some (String.ofList cs)) →
      Spells cs .identifier none
  | mark {cs : List Char} {kind : Kind} :
      (String.ofList cs, kind) ∈ markTable → Spells cs kind none

/-- A lexeme at the front of a text that no other is longer than. -/
structure LongestLexeme (text cs : List Char) (kind : Kind) (literal : Option String) : Prop where
  front : cs <+: text
  spells : Spells cs kind literal
  longest : ∀ {cs' kind' literal'}, cs' <+: text → Spells cs' kind' literal' →
    cs'.length ≤ cs.length

-- ================================================================== kinds

/-- A reserved word is of its own kind. -/
theorem Kind.ofWord_of_word? {kind : Kind} {word : String} (h : kind.word? = some word) :
    Kind.ofWord word = kind := by
  cases kind <;> cases h <;> decide

/-- Any other word is a name. -/
theorem Kind.ofWord_of_not_reserved {word : String}
    (h : ∀ kind : Kind, kind.word? ≠ some word) : Kind.ofWord word = .identifier := by
  rcases Kind.ofWord_cases word with hname | hword
  · exact hname
  · exact absurd hword (h _)

/-- A word is spelled by the kind that it has. -/
theorem spells_ofWord {cs : List Char} (h : IsWord cs) :
    Spells cs (.ofWord (String.ofList cs)) none := by
  by_cases hreserved : ∃ kind : Kind, kind.word? = some (String.ofList cs)
  · obtain ⟨kind, hkind⟩ := hreserved
    rw [Kind.ofWord_of_word? hkind]
    exact .reserved h hkind
  · have hname := not_exists.1 hreserved
    rw [Kind.ofWord_of_not_reserved hname]
    exact .name h hname

namespace Scanner

-- ======================================================= nothing stops short

/-- A run of characters of a class at the front is within the longest one. -/
theorem length_le_takeWhile {p : Char → Bool} {cs text : List Char} (h : cs <+: text)
    (hcs : cs.all p = true) : cs.length ≤ (text.takeWhile p).length := by
  obtain ⟨more, rfl⟩ := h
  rw [List.takeWhile_append_of_pos (List.all_eq_true.1 hcs), List.length_append]
  omega

/-- No numeral at the start of a text is longer than the number scanned. -/
theorem length_le_numberLength {cs text : List Char} (h : cs <+: text)
    (hcs : IsNumeral (String.ofList cs)) : cs.length ≤ numberLength text := by
  obtain ⟨whole, fraction, -, hwhole, hfraction, hform⟩ := hcs
  rw [String.toList_ofList] at hform
  rcases hform with rfl | ⟨hne, rfl⟩
  · have hle : cs.length ≤ (text.takeWhile isDigit).length := length_le_takeWhile h hwhole
    simp only [numberLength]
    split
    · split <;> omega
    · exact hle
  · obtain ⟨more, rfl⟩ := h
    rw [List.append_assoc, List.cons_append]
    have hdigits : (whole ++ '.' :: (fraction ++ more)).takeWhile isDigit = whole :=
      takeWhile_apart hwhole rfl
    have hle : fraction.length ≤ ((fraction ++ more).takeWhile isDigit).length :=
      length_le_takeWhile (List.prefix_append _ _) hfraction
    have hpos := List.length_pos_iff.2 hne
    simp only [numberLength, hdigits, List.drop_left]
    rw [if_neg (by omega), List.length_append, List.length_cons]
    omega

/-- A character that starts a mark is one. -/
theorem isMark_of_mem_markStarts {c : Char} (h : c ∈ markStarts) : IsMark c := by
  simp only [markStarts, List.mem_cons, List.not_mem_nil, or_false] at h
  rcases h with rfl | rfl | rfl | rfl | rfl | rfl | rfl | rfl | rfl | rfl | rfl | rfl | rfl | rfl
    | rfl <;> exact ⟨by decide, by decide, by decide⟩

/-- What starts a word starts neither a string nor a number. -/
theorem ne_quote_of_isWordStart {c : Char} (h : isWordStart c = true) :
    c ≠ '"' ∧ isDigit c = false := by
  constructor
  · rintro rfl
    cases h
  · rw [← Bool.not_eq_true]
    intro hdigit
    have hcode := toNat_of_isDigit hdigit
    simp only [isWordStart, Bool.or_eq_true, Bool.and_eq_true, decide_eq_true_eq] at h
    rcases h with (rfl | ⟨hlo, -⟩) | ⟨hlo, -⟩
    · exact absurd hdigit (by decide)
    · have hle : 0x61 ≤ c.toNat := hlo
      omega
    · have hle : 0x41 ≤ c.toNat := hlo
      omega

/-- Alone, a mark is read as what it is. -/
theorem symbol?_of_mem_markTable {text : String} {kind : Kind} (h : (text, kind) ∈ markTable) :
    symbol? text.toList = some (kind, text.toList.length) := by
  have hall : ∀ mark ∈ markTable, symbol? mark.1.toList = some (mark.2, mark.1.toList.length) := by
    decide +kernel
  exact hall _ h

/-- Before more text a mark that was read whole is read, or a longer one. -/
theorem symbol?_append {cs : List Char} {kind : Kind} (h : symbol? cs = some (kind, cs.length))
    (more : List Char) :
    ∃ kind' n, symbol? (cs ++ more) = some (kind', n) ∧ cs.length ≤ n
      ∧ (n = cs.length → kind' = kind) := by
  have hsome : ∃ kind' n, symbol? (cs ++ more) = some (kind', n) ∧ cs.length ≤ n := by
    rcases cs with _ | ⟨c, _ | ⟨d, rest⟩⟩
    · cases h
    · -- what starts a mark alone starts one before any text
      cases hmark : symbol? ([c] ++ more) with
      | none =>
          rw [symbol?_eq_none_iff.2 (symbol?_eq_none_iff.1 hmark)] at h
          cases h
      | some mark => exact ⟨mark.1, mark.2, rfl, symbol?_pos hmark⟩
    · -- only the marks of two characters reach that far
      unfold symbol? at h
      split at h
      case h_1 heq | h_2 heq | h_3 heq | h_4 heq =>
        cases heq
        exact ⟨_, _, rfl, Nat.le_of_eq (congrArg Prod.snd (Option.some.inj h)).symm⟩
      case h_20 => cases h
      all_goals
        have hlength : 1 = rest.length + 2 := congrArg Prod.snd (Option.some.inj h)
        omega
  obtain ⟨kind', n, hread, hle⟩ := hsome
  refine ⟨kind', n, hread, hle, fun hn => ?_⟩
  have hcut := symbol?_take hread
  rw [hn, List.take_left, h] at hcut
  cases hcut
  rfl

/-- Where a mark is ahead, it is read. -/
theorem scans_of_symbol? {s : Scanner} {kind : Kind} {n : Nat}
    (h : symbol? s.rest = some (kind, n)) : Scans s (s.tokenOf kind n none) (s.pass n) := by
  have hsame := drop_eq_pass (not_mem_take_symbol h)
  cases hrest : s.rest with
  | nil =>
      rw [hrest] at h
      cases h
  | cons c rest =>
      by_cases hstart : c ∈ markStarts
      · rw [← hsame]
        exact .mark hrest (isMark_of_mem_markStarts hstart) h
      · rw [hrest, symbol?_eq_none_iff.2 hstart] at h
        cases h

end Scanner

open Scanner (Scans)

/-- A word consists of word characters. -/
theorem IsWord.all {cs : List Char} (h : IsWord cs) : cs.all isWordChar = true := by
  obtain ⟨c, rest, rfl, hstart, hrest⟩ := h
  rw [List.all_cons, hrest, isWordChar, hstart]
  rfl

/-- Where a word is ahead, a word is read that is no shorter. -/
theorem IsWord.scans {cs : List Char} (h : IsWord cs) {s : Scanner} (hs : cs <+: s.rest) :
    ∃ n, Scans s (s.tokenOf (.ofWord (String.ofList (s.rest.take n))) n none) (s.pass n)
      ∧ cs.length ≤ n := by
  have hle : cs.length ≤ Scanner.wordLength s.rest := Scanner.length_le_takeWhile hs h.all
  obtain ⟨c, rest, rfl, hstart, -⟩ := h
  obtain ⟨more, hmore⟩ := hs
  obtain ⟨hquote, hdigit⟩ := Scanner.ne_quote_of_isWordStart hstart
  have hscans := Scans.word hmore.symm hquote hdigit hstart
  rw [Scanner.drop_eq_pass (Scanner.not_mem_take_wordLength s.rest)] at hscans
  exact ⟨_, hscans, hle⟩

/-- Where a lexeme is ahead, a token is read that is no shorter, and with the
kind and literal of the lexeme if it is as long. -/
theorem Spells.scans {cs : List Char} {kind : Kind} {literal : Option String}
    (h : Spells cs kind literal) {s : Scanner} (hs : cs <+: s.rest) :
    ∃ kind' literal' n, Scans s (s.tokenOf kind' n literal') (s.pass n) ∧ cs.length ≤ n
      ∧ (n = cs.length → kind' = kind ∧ literal' = literal) := by
  have htake : s.rest.take cs.length = cs := (List.prefix_iff_eq_take.1 hs).symm
  cases h with
  | @string body hbody =>
      obtain ⟨more, hmore⟩ := hs
      have hrest : s.rest = '"' :: (body ++ '"' :: more) := by
        rw [← hmore, List.cons_append, List.append_assoc]
        rfl
      refine ⟨_, _, _, .string hrest hbody, ?_, fun _ => ⟨rfl, rfl⟩⟩
      simp
  | @number cs x hnumeral hx =>
      -- more digits may follow, so the number read can be longer
      have hle := Scanner.length_le_numberLength hs hnumeral
      obtain ⟨c, rest, hcs, hdigit⟩ := hnumeral.first
      rw [String.toList_ofList] at hcs
      obtain ⟨more, hmore⟩ := hs
      rw [hcs] at hmore
      have hscans := Scans.number hmore.symm (by rintro rfl; cases hdigit) hdigit
      rw [Scanner.drop_eq_pass (Scanner.not_mem_take_numberLength s.rest)] at hscans
      refine ⟨_, _, _, hscans, hle, fun hn => ⟨rfl, ?_⟩⟩
      rw [hn, htake, hx]
      rfl
  | reserved hword hkind =>
      obtain ⟨n, hscans, hle⟩ := hword.scans hs
      refine ⟨_, _, n, hscans, hle, fun hn => ⟨?_, rfl⟩⟩
      rw [hn, htake]
      exact Kind.ofWord_of_word? hkind
  | name hword hname =>
      obtain ⟨n, hscans, hle⟩ := hword.scans hs
      refine ⟨_, _, n, hscans, hle, fun hn => ⟨?_, rfl⟩⟩
      rw [hn, htake]
      exact Kind.ofWord_of_not_reserved hname
  | mark hmark =>
      have halone := Scanner.symbol?_of_mem_markTable hmark
      rw [String.toList_ofList] at halone
      obtain ⟨more, hmore⟩ := hs
      obtain ⟨kind', n, hread, hle, hkind⟩ := Scanner.symbol?_append halone more
      rw [hmore] at hread
      exact ⟨kind', none, n, Scanner.scans_of_symbol? hread, hle, fun hn => ⟨hkind hn, rfl⟩⟩

-- ========================================================== nothing goes on

namespace Scanner

/-- The token of a lexeme at the front. -/
def lexemeToken (s : Scanner) (cs : List Char) (kind : Kind) (literal : Option String) : Token :=
  { kind, literal, lexeme := String.ofList cs, start := s.pos, stop := s.pos + cs.length,
    line := s.line }

/-- A token of some length has the characters of that length. -/
theorem tokenOf_eq {s : Scanner} {n : Nat} (h : n ≤ s.rest.length) (kind : Kind)
    (literal : Option String) :
    s.tokenOf kind n literal = .token (s.lexemeToken (s.rest.take n) kind literal) := by
  unfold tokenOf lexemeToken
  rw [List.length_take_of_le h]

/-- A mark that was scanned is in the table. -/
theorem mem_markTable_of_symbol? {cs : List Char} {kind : Kind} {n : Nat}
    (h : symbol? cs = some (kind, n)) : (String.ofList (cs.take n), kind) ∈ markTable := by
  unfold symbol? at h
  split at h <;> cases h <;> simp only [List.take_succ_cons, List.take_zero] <;> decide

/-- A word that was scanned is a word. -/
theorem isWord_take_wordLength {c : Char} {rest : List Char} (h : isWordStart c = true) :
    IsWord ((c :: rest).take (wordLength (c :: rest))) := by
  have hchars : ∀ d ∈ (c :: rest).take (wordLength (c :: rest)), isWordChar d = true :=
    fun d => isWordChar_of_mem_word
  obtain ⟨n, hn⟩ := Nat.exists_eq_add_of_lt (@wordLength_pos c rest h)
  rw [hn, List.take_succ_cons] at hchars ⊢
  exact ⟨c, _, rfl, h, List.all_eq_true.2 (List.forall_mem_cons.1 hchars).2⟩

/-- What is read as a token is a lexeme with its kind and literal. -/
theorem Scans.spells {s s' : Scanner} {t : Token} (h : Scans s (.token t) s') :
    ∃ cs, cs <+: s.rest ∧ Spells cs t.kind t.literal
      ∧ t = s.lexemeToken cs t.kind t.literal ∧ s' = s.pass cs.length := by
  have hfront {kind : Kind} {n : Nat} {literal : Option String}
      (ht : Event.token t = s.tokenOf kind n literal) (hs' : s' = s.pass n)
      (hn : n ≤ s.rest.length) (hspells : Spells (s.rest.take n) kind literal) :
      ∃ cs, cs <+: s.rest ∧ Spells cs t.kind t.literal
        ∧ t = s.lexemeToken cs t.kind t.literal ∧ s' = s.pass cs.length := by
    rw [tokenOf_eq hn] at ht
    cases ht
    refine ⟨_, List.take_prefix n _, hspells, rfl, ?_⟩
    rw [List.length_take_of_le hn, hs']
  -- one case for each kind of event; two of them are errors
  generalize he : Event.token t = e at h
  cases h with
  | @string body after hs hbody =>
      have htake : s.rest.take (body.length + 2) = '"' :: (body ++ ['"']) := by
        rw [hs, List.take_succ_cons, List.take_length_add_append]
        rfl
      refine hfront he rfl ?_ (htake ▸ .string hbody)
      rw [hs]
      simp
  | @number c rest hs hquote hdigit =>
      have hnumeral := @isNumeral_take_numberLength c rest hdigit
      rw [← hs] at hnumeral
      obtain ⟨x, hx⟩ := Double.ofText?_of_isNumeral hnumeral
      refine hfront he (drop_eq_pass (not_mem_take_numberLength _)) (numberLength_le _) ?_
      rw [hx]
      exact .number hnumeral hx
  | word hs hquote hdigit hstart =>
      refine hfront he (drop_eq_pass (not_mem_take_wordLength _)) (wordLength_le _) ?_
      apply spells_ofWord
      rw [hs]
      exact isWord_take_wordLength hstart
  | mark hs hmark hread =>
      exact hfront he (drop_eq_pass (not_mem_take_symbol hread)) (symbol?_le hread)
        (.mark (mem_markTable_of_symbol? hread))
  | openString => cases he
  | bad => cases he

-- ======================================================== the longest lexeme

variable {s : Scanner}

/-- The longest lexeme ahead decides what is read. -/
theorem scanToken_of_longest {cs : List Char} {kind : Kind} {literal : Option String}
    (h : LongestLexeme s.rest cs kind literal) :
    s.scanToken = (.token (s.lexemeToken cs kind literal), s.pass cs.length) := by
  obtain ⟨kind', literal', n, hscans, hle, hsame⟩ := h.spells.scans h.front
  obtain ⟨cs', hfront, hspells, htoken, -⟩ := hscans.spells
  -- what is read is a lexeme of `n` characters, so not longer than the longest
  have hlength : s.pos + n = s.pos + cs'.length := congrArg Token.stop htoken
  have hn : n = cs.length := by
    have := h.longest hfront hspells
    omega
  obtain ⟨rfl, rfl⟩ := hsame hn
  rw [scanToken_of_scans hscans, hn, tokenOf_eq h.front.length_le,
    ← List.prefix_iff_eq_take.1 h.front]

/-- Where a lexeme is ahead, there is a longest one. -/
theorem exists_longest {cs : List Char} {kind : Kind} {literal : Option String}
    (hfront : cs <+: s.rest) (hspells : Spells cs kind literal) :
    ∃ cs' kind' literal', LongestLexeme s.rest cs' kind' literal' := by
  obtain ⟨kind₁, literal₁, n, hscans, -, -⟩ := hspells.scans hfront
  obtain ⟨cs', hfront', hspells', htoken, -⟩ := hscans.spells
  refine ⟨cs', _, _, hfront', hspells', fun {cs₂ kind₂ literal₂} hfront₂ hspells₂ => ?_⟩
  -- any other is at most as long as what is read for it, and that is the same
  obtain ⟨kind₃, literal₃, m, hscans₃, hle, -⟩ := hspells₂.scans hfront₂
  have hread := (scanToken_of_scans hscans₃).symm.trans (scanToken_of_scans hscans)
  have htoken₃ := Event.token.inj (congrArg Prod.fst hread)
  have hstop : s.pos + m = s.pos + n := congrArg Token.stop htoken₃
  have hlength : s.pos + n = s.pos + cs'.length := congrArg Token.stop htoken
  omega

/-- Without a lexeme ahead, a quote opens a string that is not closed, and any
other character is unexpected. -/
theorem scanToken_of_no_lexeme {c : Char} {rest : List Char} (hs : s.rest = c :: rest)
    (h : ∀ cs kind literal, cs <+: s.rest → ¬ Spells cs kind literal) :
    s.scanToken = if c = '"' then
        (.error ⟨.unterminatedString, s.pos + s.rest.length, (s.pass s.rest.length).line⟩,
          s.pass s.rest.length)
      else (.error ⟨.unexpectedCharacter (some c), s.pos, s.line⟩, s.drop 1) := by
  have hne : s.rest ≠ [] := by
    rw [hs]
    exact List.cons_ne_nil c rest
  obtain ⟨e, s', hscans⟩ := exists_scans hne
  rw [scanToken_of_scans hscans]
  cases e with
  | token t =>
      obtain ⟨cs, hfront, hspells, -⟩ := hscans.spells
      exact absurd hspells (h cs _ _ hfront)
  | error err =>
      generalize he : Event.error err = e at hscans
      cases hscans with
      | string | number | word | mark => cases he
      | openString hopen =>
          cases hs.symm.trans hopen
          rfl
      | bad hbad hmark =>
          cases hs.symm.trans hbad
          rw [if_neg hmark.1]

end Scanner

/-- Maximal munch. A scan reads an event at each of its starts, and then the
end. If some lexeme is in front of a start, there is a longest one; the event
is its token, and the scan goes on behind it. If none is, the event is an
error: a quote is reported as a string that is not closed, and all of the
text is skipped; any other character is reported itself, and skipped
alone. -/
theorem scan_takes_longest_lexemes (source : String) :
    (∃ last : Token, last.kind = .eof
      ∧ scan source
          = (Scanner.ofSource source).starts.map (fun s => (s.scanToken).1) ++ [.token last])
      ∧ ∀ s ∈ (Scanner.ofSource source).starts,
          s.rest = source.toList.drop s.pos ∧ s.rest ≠ []
          ∧ (∀ cs kind literal, LongestLexeme s.rest cs kind literal →
              s.scanToken = (.token (s.lexemeToken cs kind literal), s.pass cs.length))
          ∧ (∀ cs kind literal, cs <+: s.rest → Spells cs kind literal →
              ∃ cs' kind' literal', LongestLexeme s.rest cs' kind' literal')
          ∧ ((∀ cs kind literal, cs <+: s.rest → ¬ Spells cs kind literal) →
              ∀ c rest, s.rest = c :: rest →
                (c = '"' → ∃ e : LexError, e.message = "Unterminated string."
                  ∧ s.scanToken = (.error e, s.pass s.rest.length))
                ∧ (c ≠ '"' → ∃ e : LexError,
                  e.message = "Unexpected character: " ++ String.ofList [c]
                    ∧ s.scanToken = (.error e, s.drop 1))) := by
  obtain ⟨hstarts, stop, -, -, hevents⟩ := Scanner.events_eq_starts (Scanner.counts_ofSource source)
  refine ⟨⟨stop.endToken, rfl, hevents⟩, fun s hs => ?_⟩
  obtain ⟨hcounts, hne, -⟩ := hstarts s hs
  refine ⟨hcounts.rest, hne, fun cs kind literal => Scanner.scanToken_of_longest,
    fun cs kind literal => Scanner.exists_longest, fun hnone c rest hrest => ?_⟩
  -- an open string is passed to the end, a bad character alone
  have hread := Scanner.scanToken_of_no_lexeme hrest hnone
  constructor
  · intro hquote
    rw [if_pos hquote] at hread
    exact ⟨_, rfl, hread⟩
  · intro hquote
    rw [if_neg hquote] at hread
    exact ⟨_, rfl, hread⟩

/-- A point takes digits behind it into the number, but no second point is
taken. No lexeme starts with a dollar sign. -/
theorem scan_takes_longest_lexemes_decimal :
    let s : Scanner := ⟨"1.2.3 $".toList, 4, 2⟩
    let bad : Scanner := ⟨"$".toList, 10, 2⟩
    s ∈ (Scanner.ofSource "//=\n1.2.3 $").starts ∧ bad ∈ (Scanner.ofSource "//=\n1.2.3 $").starts
      ∧ LongestLexeme s.rest "1.2".toList .number (some "1.2")
      ∧ (∀ cs kind literal, cs <+: bad.rest → ¬ Spells cs kind literal)
      ∧ s.scanToken = (.token ⟨.number, "1.2", some "1.2", 4, 7, 2⟩, s.pass 3)
      ∧ ∃ e : LexError, e.message = "Unexpected character: $"
          ∧ bad.scanToken = (.error e, bad.drop 1) := by
  intro s bad
  have hs : s ∈ (Scanner.ofSource "//=\n1.2.3 $").starts := by decide +kernel
  have hbad : bad ∈ (Scanner.ofSource "//=\n1.2.3 $").starts := by decide +kernel
  have hread : (s.scanToken).2.pos = s.pos + 3 := by decide +kernel
  have hlongest : LongestLexeme s.rest "1.2".toList .number (some "1.2") := by
    refine ⟨by decide, ?_, fun {cs kind literal} hfront hspells => ?_⟩
    · have hnumeral : IsNumeral (String.ofList "1.2".toList) :=
        ⟨['1'], ['2'], by decide, rfl, rfl, .inr ⟨by decide, rfl⟩⟩
      have hx : Double.ofText? (String.ofList "1.2".toList) = some ⟨0x3ff3333333333333⟩ := by
        decide +kernel
      have hliteral : (⟨0x3ff3333333333333⟩ : Double).literalText = "1.2" := by decide +kernel
      have hspells := Spells.number hnumeral hx
      rwa [hliteral] at hspells
    · obtain ⟨_, _, n, hscans, hle, -⟩ := hspells.scans hfront
      rw [Scanner.scanToken_of_scans hscans] at hread
      have hn : n = "1.2".toList.length := Nat.add_left_cancel hread
      rwa [hn] at hle
  have hnone : ∀ cs kind literal, cs <+: bad.rest → ¬ Spells cs kind literal := by
    intro cs kind literal hfront hspells
    have herror : (bad.scanToken).1.token? = none := by decide +kernel
    obtain ⟨_, _, _, hscans, -⟩ := hspells.scans hfront
    rw [Scanner.scanToken_of_scans hscans] at herror
    cases herror
  obtain ⟨-, hstarts⟩ := scan_takes_longest_lexemes "//=\n1.2.3 $"
  obtain ⟨-, -, htoken, -⟩ := hstarts s hs
  obtain ⟨-, -, -, -, hskips⟩ := hstarts bad hbad
  exact ⟨hs, hbad, hlongest, hnone, htoken _ _ _ hlongest, (hskips hnone '$' [] rfl).2 (by decide)⟩

end Lox

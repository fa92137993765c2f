/-
Dropping invisible characters keeps the program.

What is typed at the prompt loses its invisible characters before it is
scanned. Between tokens they are blanks or bad characters and say nothing,
so the scan of what is left follows the scan of the text, piece by piece: a
blank is dropped or stays a blank, a comment stays a comment (`lead_visible`),
a bad character is dropped or stays bad, a string that is not closed stays
open (`Scans.error_visible`), and a token has no invisible characters in it
unless it is a string (`Scans.isInvisible_of_mem`).

One thing can go wrong. A character that kept two tokens apart is gone, and
the first is read on into the second. `Token.joins` says when that happens,
and without it every token is read again (`contents_visible`).
-/
import Lox.Prompt.Entry
import Lox.Proofs.Layout
import Lox.Proofs.Tiling

namespace Lox

open Prompt (isInvisible normalize)

-- ===================================================== visible characters

/-- The characters that are kept. -/
def visible (cs : List Char) : List Char :=
  cs.filter (!isInvisible ·)

/-- What is visible of two texts together is visible of each. -/
theorem visible_append (cs ds : List Char) : visible (cs ++ ds) = visible cs ++ visible ds :=
  List.filter_append ..

theorem visible_cons_of_visible {c : Char} (h : isInvisible c = false) (cs : List Char) :
    visible (c :: cs) = c :: visible cs :=
  List.filter_cons_of_pos (by rw [h]; rfl)

theorem visible_cons_of_invisible {c : Char} (h : isInvisible c = true) (cs : List Char) :
    visible (c :: cs) = visible cs :=
  List.filter_cons_of_neg (by rw [h]; decide)

/-- Nothing visible was added. -/
theorem mem_of_mem_visible {c : Char} {cs : List Char} (h : c ∈ visible cs) : c ∈ cs :=
  (List.mem_filter.1 h).1

/-- Normalising keeps the visible characters. -/
theorem toList_normalize (text : String) : (normalize text).toList = visible text.toList :=
  String.toList_ofList

/-- The printable characters of ASCII are visible. -/
theorem isInvisible_of_toNat {c : Char} (hlo : 0x21 ≤ c.toNat) (hhi : c.toNat ≤ 0x7E) :
    isInvisible c = false := by
  simp only [isInvisible, List.contains_eq_mem, List.mem_cons, List.not_mem_nil, or_false,
    decide_eq_false_iff_not]
  omega

namespace Scanner

-- ================================================================== tokens

/-- Only strings have characters that can be invisible. -/
theorem Scans.isInvisible_of_mem {s s' : Scanner} {t : Token} (h : Scans s (.token t) s')
    (hkind : t.kind ≠ .string) : ∀ c ∈ t.lexeme.toList, isInvisible c = false := by
  intro c hc
  generalize he : Event.token t = e at h
  cases h with
  | string _ _ =>
      cases he
      exact absurd rfl hkind
  | number _ _ _ =>
      cases he
      rw [String.toList_ofList] at hc
      rcases isDigit_or_point_of_mem hc with hdigit | rfl
      · have := toNat_of_isDigit hdigit
        exact isInvisible_of_toNat (by omega) (by omega)
      · decide
  | word _ _ _ _ =>
      cases he
      rw [String.toList_ofList] at hc
      have := toNat_of_isWordChar (isWordChar_of_mem_word hc)
      exact isInvisible_of_toNat (by omega) (by omega)
  | mark _ _ hk =>
      cases he
      rw [String.toList_ofList] at hc
      have hmarks : markStarts.all (!isInvisible ·) = true := by decide +kernel
      simpa using List.all_eq_true.1 hmarks c (mem_markStarts_of_symbol hk c hc)
  | openString _ _ | bad _ _ _ => cases he

/-- The characters of a token come first, and then what is behind it. -/
theorem Scans.rest_eq {s s' : Scanner} {t : Token} (h : Scans s (.token t) s') :
    s.rest = t.lexeme.toList ++ s'.rest ∧ t.stop = s'.pos := by
  generalize he : Event.token t = e at h
  cases h <;> cases he <;>
    exact ⟨by rw [String.toList_ofList]; exact (List.take_append_drop _ _).symm, rfl⟩

-- ================================================================== trivia

/-- A blank is dropped or stays one, and a comment stays one. -/
theorem lead_visible {piece after : List Char} (h : Lead piece after) :
    visible piece = [] ∨ Lead (visible piece) (visible after) := by
  cases h with
  | @blank c _ hc =>
      cases hinvisible : isInvisible c with
      | true => exact .inl (visible_cons_of_invisible hinvisible [])
      | false =>
          rw [visible_cons_of_visible hinvisible]
          exact .inr (.blank _ hc)
  | @comment line _ hline hafter =>
      have hslash : isInvisible '/' = false := by decide
      rw [visible_cons_of_visible hslash, visible_cons_of_visible hslash]
      refine .inr (.comment (fun hmem => hline (mem_of_mem_visible hmem)) ?_)
      cases after with
      | nil => simp [visible]
      | cons c after =>
          obtain rfl := hafter c rfl
          rw [visible_cons_of_visible (by decide)]
          exact hafter

/-- What is visible of space and comments is skipped too. -/
theorem exists_skipTrivia_visible (s : Scanner) {q : Scanner} (hq : q.rest = visible s.rest) :
    ∃ q' : Scanner, q.events = q'.events ∧ q'.rest = visible s.skipTrivia.rest := by
  generalize hs : s.rest = cs at hq
  induction cs using leadInduction generalizing s q with
  | stop cs h =>
      rw [skipTrivia_leadless (hs ▸ h), hs]
      exact ⟨q, rfl, hq⟩
  | step piece after hlead ih =>
      have hpass : (s.pass piece.length).rest = after := by
        rw [rest_pass, hs, List.drop_left]
      rw [skipTrivia_lead hs hlead]
      rw [visible_append] at hq
      rcases lead_visible hlead with hnil | hlead'
      · rw [hnil] at hq
        exact ih _ hpass hq
      · obtain ⟨q', hevents, hrest⟩ :=
          ih (s.pass piece.length) hpass (q := q.pass (visible piece).length)
            (by rw [rest_pass, hq, List.drop_left])
        exact ⟨q', (events_eq_of_skipTrivia (skipTrivia_lead hq hlead')).trans hevents, hrest⟩

-- =================================================================== errors

/-- A lexical error is dropped with its character, or happens again. -/
theorem Scans.error_visible {s s' : Scanner} {e : LexError} (h : Scans s (.error e) s')
    (hlead : Leadless s.rest) {q : Scanner} (hq : q.rest = visible s.rest) :
    ∃ q' : Scanner, tokensOf q.events = tokensOf q'.events ∧ q'.rest = visible s'.rest := by
  have hagain {err : LexError} {q' : Scanner} (hlead' : Leadless q.rest)
      (hscans : Scans q (.error err) q') : tokensOf q.events = tokensOf q'.events := by
    rw [← skipTrivia_leadless hlead'] at hscans
    rw [events_of_scans hscans, tokensOf_error]
  generalize he : Event.error e = event at h
  cases h with
  | @openString body hs hbody =>
      rw [hs, visible_cons_of_visible (by decide)] at hq
      have hlead' : Leadless q.rest := by
        rw [hq, leadless_cons_iff]
        exact ⟨by decide, by simp⟩
      refine ⟨_, hagain hlead' (.openString hq fun hmem => hbody (mem_of_mem_visible hmem)), ?_⟩
      rw [rest_pass, rest_pass, List.drop_length, List.drop_length]
      rfl
  | @bad c rest hs hc hk =>
      rw [hs] at hlead hk hq
      -- a bad character that is invisible is gone, and with it the step that reported it
      cases hinvisible : isInvisible c with
      | true =>
          rw [visible_cons_of_invisible hinvisible] at hq
          exact ⟨q, rfl, by rw [hq, rest_drop, hs]; rfl⟩
      | false =>
          rw [visible_cons_of_visible hinvisible] at hq
          have hstarts := symbol?_eq_none_iff.1 hk
          have hlead' : Leadless q.rest := by
            rw [hq, leadless_cons_iff]
            refine ⟨hlead.isBlank, ?_⟩
            rintro ⟨rfl, -⟩
            exact hstarts (by decide)
          have hnone : symbol? q.rest = none := by
            rw [hq]
            exact symbol?_eq_none_iff.2 hstarts
          exact ⟨_, hagain hlead' (.bad hq hc hnone), by rw [rest_drop, rest_drop, hq, hs]; rfl⟩
  | string _ _ | number _ _ _ | word _ _ _ _ | mark _ _ _ => cases he

-- ========================================================== the whole scan

/-- Without its invisible characters, a text is scanned to tokens of the same
contents, if none of them was in a string and no token is read on into what
comes to stand behind it. -/
theorem contents_visible {text : List Char} {s : Scanner} (hfollows : s.Follows text)
    (hstrings : ∀ t ∈ tokensOf s.events, t.kind = .string →
      ∀ c ∈ t.lexeme.toList, isInvisible c = false)
    (hapart : ∀ t ∈ tokensOf s.events, t.joins (visible (text.drop t.stop)) = false)
    {q : Scanner} (hq : q.rest = visible s.rest) :
    (tokensOf q.events).map Token.content = (tokensOf s.events).map Token.content := by
  -- along the events of the text; the scan of what is left takes a step for
  -- each of them, or none for a bad character that is dropped
  fun_induction events s generalizing q with
  | case1 s t hrest =>
      obtain ⟨q', hevents, hq'⟩ := exists_skipTrivia_visible s hq
      rw [show s.skipTrivia.rest = [] from hrest] at hq'
      have hend : q'.skipTrivia.rest = [] := by
        rw [skipTrivia, rest_pass, hq']
        exact List.drop_nil
      rw [hevents, events_of_end hend]
      rfl
  | case2 s t hrest ih =>
      obtain ⟨q', hevents, hq'⟩ := exists_skipTrivia_visible s hq
      have hlead : Leadless t.rest := leadless_skipTrivia s
      have hscans := scans_scanToken hrest
      obtain ⟨n, hn, hpass⟩ := hscans.passes hlead
      have hfollows' : (t.scanToken).2.Follows text := by
        rw [hpass]
        exact (exists_tiles_trivia hfollows).1.pass hn
      cases hevent : (t.scanToken).1 with
      | error e =>
          rw [hevent] at hscans hstrings hapart
          obtain ⟨q'', htokens, hq''⟩ := hscans.error_visible hlead hq'
          rw [hevents, htokens]
          exact ih hfollows' hstrings hapart hq''
      | token u =>
          rw [hevent] at hscans hstrings hapart
          rw [tokensOf_token, List.forall_mem_cons] at hstrings hapart
          obtain ⟨hrest', hstop⟩ := hscans.rest_eq
          have hkept : visible u.lexeme.toList = u.lexeme.toList := by
            apply List.filter_eq_self.2
            intro c hc
            by_cases hkind : u.kind = .string
            · rw [hstrings.1 hkind c hc]
              rfl
            · rw [hscans.isInvisible_of_mem hkind c hc]
              rfl
          have hread : q'.rest = u.lexeme.toList ++ visible (t.scanToken).2.rest := by
            rw [hq', show s.skipTrivia.rest = _ from hrest', visible_append, hkept]
          have hjoins : u.joins (visible (t.scanToken).2.rest) = false := by
            rw [hfollows'.rest, ← hstop]
            exact hapart.1
          obtain ⟨v, q'', hagain, hcontent, hq''⟩ :=
            events_of_legible ⟨t, _, hlead, hscans⟩ hread hjoins
          rw [hevents, hagain, tokensOf_token, tokensOf_token, List.map_cons, List.map_cons,
            hcontent, ih hfollows' hstrings.2 hapart.2 hq'']

end Scanner

-- ============================================================= the result

/-- Normalizing what is typed keeps the program: if no string has an invisible
character in it, and no token is read on into what stands behind it once the
invisible characters are gone, then the tokens have the same kinds and
lexemes as before. So the text parses to the same statements, or is rejected
for the same reason at a token of the same kind and lexeme. -/
theorem normalize_keeps_program (text : String)
    (hstrings : ∀ t ∈ tokenize text, t.kind = .string →
      ∀ c ∈ t.lexeme.toList, isInvisible c = false)
    (hapart : ∀ t ∈ tokenize text, t.joins (visible (text.toList.drop t.stop)) = false) :
    let parsed := (Cursor.ofSource text).program
    let parsed' := (Cursor.ofSource (normalize text)).program
    (tokenize (normalize text)).map (fun t => (t.kind, t.lexeme))
        = (tokenize text).map (fun t => (t.kind, t.lexeme))
      ∧ parsed'.1 = parsed.1
      ∧ ((parsed'.2.1 = none ∧ parsed.2.1 = none)
        ∨ ∃ fault t t', parsed'.2.1 = some (.rejected fault (some t'))
            ∧ parsed.2.1 = some (.rejected fault (some t))
            ∧ t'.kind = t.kind ∧ t'.lexeme = t.lexeme) := by
  intro parsed parsed'
  have hcontents : (tokenize (normalize text)).map Token.content
      = (tokenize text).map Token.content :=
    Scanner.contents_visible (Scanner.follows_ofSource text) hstrings hapart
      (toList_normalize text)
  obtain ⟨hstatements, hparses⟩ := parse_cases_of_contents hcontents
  refine ⟨?_, hstatements, ?_⟩
  · have hfirst := congrArg (List.map fun content => (content.1, content.2.1)) hcontents
    rwa [List.map_map, List.map_map] at hfirst
  · rcases hparses with hnone | ⟨fault, t, t', hfailed', hfailed, hcontent⟩
    · exact .inl hnone
    · exact .inr ⟨fault, t, t', hfailed', hfailed, congrArg Prod.fst hcontent,
        congrArg (·.2.1) hcontent⟩

/-- Carriage returns and no-break spaces before and behind tokens, and a
comment with a zero-width space in it. -/
theorem normalize_keeps_program_lines :
    let text := "var a\u00a0= 1;\r\n" ++ r"{" ++ "\u00a0print \"a b\" ; " ++ r"}" ++ " // \u200b\r\n"
    (∀ t ∈ tokenize text, t.kind = .string → ∀ c ∈ t.lexeme.toList, isInvisible c = false)
      ∧ (∀ t ∈ tokenize text, t.joins (visible (text.toList.drop t.stop)) = false)
      ∧ (tokenize (normalize text)).map (fun t => (t.kind, t.lexeme))
          = (tokenize text).map (fun t => (t.kind, t.lexeme)) := by
  intro text
  have hkept : ∀ t ∈ tokenize text, t.kind = .string →
      t.lexeme.toList.all (!isInvisible ·) = true := by decide +kernel
  have hstrings : ∀ t ∈ tokenize text, t.kind = .string →
      ∀ c ∈ t.lexeme.toList, isInvisible c = false := by
    intro t ht hkind c hc
    simpa using List.all_eq_true.1 (hkept t ht hkind) c hc
  have hapart : ∀ t ∈ tokenize text, t.joins (visible (text.toList.drop t.stop)) = false := by
    decide +kernel
  exact ⟨hstrings, hapart, (normalize_keeps_program text hstrings hapart).1⟩

/-- Where a no-break space is all that keeps two words apart, they become
one. -/
theorem normalize_joins_words :
    let text := "var\u00a0a;"
    text.toList.filter isInvisible = ['\u00a0']
      ∧ '"' ∉ text.toList ∧ '/' ∉ text.toList
      ∧ (tokenize (normalize text)).map (fun t => (t.kind, t.lexeme))
          ≠ (tokenize text).map (fun t => (t.kind, t.lexeme)) := by
  decide +kernel

end Lox

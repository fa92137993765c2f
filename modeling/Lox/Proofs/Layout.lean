/-
Layout does not matter.

# The tokens of a respaced source

Write the lexemes of a source one after the other with a space between them.
Blanks, comments, bad characters and an open string at the end are gone, and
tokens that touched stand apart. Each lexeme is read again as what it was:
it was read once, so alone it is that token (`Scans.alone`), a space behind
it changes nothing (`Scans.extend_apart`), and where it stands does not
matter (`Scans.elsewhere`). A token of which this can be said is `Legible`. The
scan of the joined lexemes then follows the list of tokens (`says_joined`).

# What is made of them

Parsers read the contents of tokens and not their places, so sources whose
tokens have the same contents parse to the same statements, or are rejected
for the same reason at tokens of the same content (`program_of_contents`).
What parses the same runs the same.
-/
import Lox.Proofs.Session
import Lox.Proofs.Touching

namespace Lox

-- =============================================================== contents

namespace Token

/-- What a token says, wherever it stands. -/
def content (t : Token) : Kind × String × Option String :=
  (t.kind, t.lexeme, t.literal)

/-- The token without its place. -/
def unplaced (t : Token) : Token :=
  { kind := t.kind, lexeme := t.lexeme, literal := t.literal }

/-- Tokens agree but for their places exactly if their contents do. -/
theorem unplaced_eq_iff {t u : Token} : t.unplaced = u.unplaced ↔ t.content = u.content := by
  simp [unplaced, content]

/-- The kind belongs to the content. -/
theorem kind_of_content {t u : Token} (h : t.content = u.content) : t.kind = u.kind :=
  congrArg Prod.fst h

theorem lexeme_of_content {t u : Token} (h : t.content = u.content) : t.lexeme = u.lexeme :=
  congrArg (·.2.1) h

end Token

/-- Taking the places away leaves a parser's view of the tokens. -/
theorem relabeling_unplaced : Relabeling Token.unplaced := by
  constructor <;> intro t <;> rfl

/-- The content of every end token. -/
def endContent : Kind × String × Option String :=
  (.eof, "", none)

-- ========================================================= legible tokens

namespace Scanner

/-- The same characters are read as the same content elsewhere. -/
theorem Scans.elsewhere {s s' : Scanner} {t : Token} (h : Scans s (.token t) s') {q : Scanner}
    (hq : q.rest = s.rest) :
    ∃ u q', Scans q (.token u) q' ∧ u.content = t.content ∧ q'.rest = s'.rest := by
  generalize he : Event.token t = e at h
  cases h with
  | string hs hbody =>
      cases he
      exact ⟨_, _, .string (hq.trans hs) hbody, by simp [Token.content, hq], by simp [hq]⟩
  | number hs hd hq' =>
      cases he
      exact ⟨_, _, .number (hq.trans hs) hd hq', by simp [Token.content, hq], by simp [hq]⟩
  | word hs hd hq' hw =>
      cases he
      exact ⟨_, _, .word (hq.trans hs) hd hq' hw, by simp [Token.content, hq], by simp [hq]⟩
  | mark hs hc hk =>
      cases he
      exact ⟨_, _, .mark (hq.trans hs) hc ((congrArg symbol? hq).trans hk),
        by simp [Token.content, hq], by simp [hq]⟩
  | openString _ _ => cases he
  | bad _ _ _ => cases he

end Scanner

/-- A token that can be read somewhere, with no trivia before it. -/
def Token.Legible (t : Token) : Prop :=
  ∃ s s' : Scanner, Scanner.Leadless s.rest ∧ Scanner.Scans s (.token t) s'

namespace Scanner

/-- Every token of a scan is legible, or says what an end token says. -/
theorem legible_of_mem_events (s : Scanner) :
    ∀ t ∈ tokensOf s.events, t.Legible ∨ t.content = endContent := by
  fun_induction events s with
  | case1 s t hrest =>
      intro u hu
      rw [tokensOf_token, tokensOf_nil, List.mem_singleton] at hu
      rw [hu]
      exact .inr rfl
  | case2 s t hrest ih =>
      have hscans := scans_scanToken hrest
      cases hevent : (t.scanToken).1 with
      | error e => exact ih
      | token u =>
          rw [hevent] at hscans
          rw [tokensOf_token, List.forall_mem_cons]
          exact ⟨.inl ⟨t, _, leadless_skipTrivia s, hscans⟩, ih⟩

/-- Before text that it is not read on into, the lexeme of a legible token is
read as that token, and the scan goes on behind it. -/
theorem events_of_legible {t : Token} (h : t.Legible) {q : Scanner} {more : List Char}
    (hq : q.rest = t.lexeme.toList ++ more) (hmore : t.joins more = false) :
    ∃ (u : Token) (q' : Scanner),
      q.events = .token u :: q'.events ∧ u.content = t.content ∧ q'.rest = more := by
  obtain ⟨s, s', hlead, hscans⟩ := h
  obtain ⟨n, s'', hlexeme, halone, hend⟩ := hscans.alone
  have hextend := halone.extend_apart hend hmore
  have hrest : q.rest = ((s.alone n).extend more).rest := by
    rw [hq, rest_extend, rest_alone, hlexeme]
  obtain ⟨u, q', hread, hcontent, hbehind⟩ := hextend.elsewhere hrest
  have hlead' : Leadless q.rest := by
    rw [hrest]
    exact halone.leadless_apart (hlead.take n) hmore
  rw [← skipTrivia_leadless hlead'] at hread
  refine ⟨u, q', events_of_scans hread, hcontent, ?_⟩
  rw [hbehind, rest_extend, hend, List.nil_append]

-- ========================================================= joined lexemes

/-- `q.Says ts`: the scan from `q` has no errors, and its tokens have the
contents of `ts` and then that of an end token. -/
def Says (q : Scanner) (ts : List Token) : Prop :=
  ∃ us : List Token,
    q.events = us.map .token ∧ us.map Token.content = ts.map Token.content ++ [endContent]

/-- At the end of the text no token is left to say. -/
theorem says_end {q : Scanner} (hq : q.rest = []) : q.Says [] := by
  have hend : q.skipTrivia.rest = [] := by
    rw [skipTrivia, rest_pass, hq, List.drop_nil]
  exact ⟨[_], events_of_end hend, rfl⟩

/-- A space says nothing. -/
theorem says_space {q : Scanner} {rest : List Char} {ts : List Token} (hq : q.rest = ' ' :: rest)
    (h : ∀ q' : Scanner, q'.rest = rest → q'.Says ts) : q.Says ts := by
  have hlead : Lead [' '] rest := .blank rest (by decide)
  have hskip : q.skipTrivia = (q.pass 1).skipTrivia := skipTrivia_lead hq hlead
  obtain ⟨us, hevents, hcontents⟩ := h (q.pass 1) (by rw [rest_pass, hq]; rfl)
  exact ⟨us, (events_eq_of_skipTrivia hskip).trans hevents, hcontents⟩

/-- The lexeme of a legible token says the token, if a break comes behind it. -/
theorem says_lexeme {t : Token} (ht : t.Legible) {q : Scanner} {more : List Char}
    {ts : List Token} (hq : q.rest = t.lexeme.toList ++ more) (hmore : Breaks more)
    (h : ∀ q' : Scanner, q'.rest = more → q'.Says ts) : q.Says (t :: ts) := by
  obtain ⟨u, q', hfirst, hcontent, hrest⟩ := events_of_legible ht hq (joins_of_breaks hmore t)
  obtain ⟨us, hevents, hcontents⟩ := h q' hrest
  refine ⟨u :: us, by rw [hfirst, hevents]; rfl, ?_⟩
  rw [List.map_cons, hcontent, hcontents]
  rfl

/-- Joined by spaces, the lexemes of legible tokens are read one after the
other. -/
theorem says_joined {ts : List Token} (h : ∀ t ∈ ts, t.Legible) {q : Scanner}
    (hq : q.rest = [' '].intercalate (ts.map (·.lexeme.toList))) : q.Says ts := by
  induction ts generalizing q with
  | nil => exact says_end hq
  | cons t ts ih =>
      rw [List.forall_mem_cons] at h
      cases ts with
      | nil =>
          have hq' : q.rest = t.lexeme.toList ++ [] := by
            rw [hq, List.append_nil, List.map_singleton, List.intercalate_singleton]
          exact says_lexeme h.1 hq' (fun c hc => by cases hc) fun q' => says_end
      | cons u us =>
          have hq' : q.rest = t.lexeme.toList
              ++ ' ' :: [' '].intercalate ((u :: us).map (·.lexeme.toList)) := by
            rw [hq, List.map_cons, List.map_cons, List.intercalate_cons_cons, List.append_assoc]
            rfl
          exact says_lexeme h.1 hq' (breaks_cons (by decide) _) fun q' hspace =>
            says_space hspace fun q'' => ih h.2

end Scanner

/-- The lexemes of a source with single spaces between them. -/
def respaced (source : String) : String :=
  " ".intercalate (((tokenize source).filter (·.kind ≠ .eof)).map Token.lexeme)

/-- Every token but the end token is legible. -/
theorem legible_of_mem_tokenize {source : String} {t : Token} (ht : t ∈ tokenize source)
    (hkind : t.kind ≠ .eof) : t.Legible := by
  rcases (Scanner.ofSource source).legible_of_mem_events t ht with hlegible | hend
  · exact hlegible
  · exact absurd (congrArg Prod.fst hend) hkind

/-- All end tokens have the same content. -/
theorem content_of_eof {source : String} {t : Token} (ht : t ∈ tokenize source)
    (hkind : t.kind = .eof) : t.content = endContent := by
  rcases (Scanner.ofSource source).legible_of_mem_events t ht with ⟨s, s', -, hscans⟩ | hend
  · have hscanned := Scanner.scanned_of_scanToken
      (congrArg Prod.fst (Scanner.scanToken_of_scans hscans))
    exact absurd hkind hscanned.not_eof
  · exact hend

/-- The contents of the tokens of a source: those of its tokens before the
end, and that of the end token. -/
theorem contents_tokenize (source : String) :
    (tokenize source).map Token.content
      = ((tokenize source).filter (·.kind ≠ .eof)).map Token.content ++ [endContent] := by
  obtain ⟨body, last, heq, hlast, hbody⟩ := tokenize_eq source
  have hcontent : last.content = endContent :=
    content_of_eof (by rw [heq]; exact List.mem_append_right _ (List.mem_singleton.2 rfl)) hlast
  have hfilter : (tokenize source).filter (·.kind ≠ .eof) = body := by
    rw [heq, List.filter_append, List.filter_eq_self.2]
    · simp [hlast]
    · intro t ht
      simpa using (hbody t ht).not_eof
  rw [hfilter, heq, List.map_append, ← hcontent]
  rfl

/-- Joined by spaces, the lexemes of legible tokens are scanned without lexical
errors, as tokens of the same contents and an end token. -/
theorem scan_joined {ts : List Token} (h : ∀ t ∈ ts, t.Legible) :
    errorsOf (scan (" ".intercalate (ts.map Token.lexeme))) = []
      ∧ (tokenize (" ".intercalate (ts.map Token.lexeme))).map Token.content
          = ts.map Token.content ++ [endContent] := by
  have hrest : (Scanner.ofSource (" ".intercalate (ts.map Token.lexeme))).rest
      = [' '].intercalate (ts.map (·.lexeme.toList)) := by
    show (" ".intercalate (ts.map Token.lexeme)).toList = _
    rw [String.toList_intercalate, List.map_map]
    rfl
  obtain ⟨us, hevents, hcontents⟩ := Scanner.says_joined h hrest
  have hscan : scan (" ".intercalate (ts.map Token.lexeme)) = us.map .token := hevents
  refine ⟨?_, ?_⟩
  · rw [hscan, errorsOf_map_token]
  · rw [tokenize, hscan, tokensOf_map_token, hcontents]

/-- A respaced source has no lexical errors, and its tokens say what they
said. -/
theorem scan_respaced (source : String) :
    errorsOf (scan (respaced source)) = []
      ∧ (tokenize (respaced source)).map Token.content
          = (tokenize source).map Token.content := by
  have hlegible : ∀ t ∈ (tokenize source).filter (·.kind ≠ .eof), t.Legible := by
    intro t ht
    rw [List.mem_filter, decide_eq_true_eq] at ht
    exact legible_of_mem_tokenize ht.1 ht.2
  rw [contents_tokenize source]
  exact scan_joined hlegible

-- ================================================================ parsing

namespace Cursor

/-- Tokens of the same contents parse to the same statements, and fail for the
same reason at a token of the same content. -/
theorem program_of_contents {c c' : Cursor}
    (h : (tokensOf c.pending).map Token.content = (tokensOf c'.pending).map Token.content) :
    c.program.1 = c'.program.1
      ∧ c.program.2.1.map (ParseFailure.relabel Token.unplaced)
          = c'.program.2.1.map (ParseFailure.relabel Token.unplaced) := by
  have hunplaced (ts : List Token) : ts.map Token.unplaced
      = (ts.map Token.content).map fun (kind, lexeme, literal) => { kind, lexeme, literal } := by
    rw [List.map_map]
    rfl
  have hbare : (c.relabel Token.unplaced).bare = (c'.relabel Token.unplaced).bare := by
    apply bare_eq_of_tokens
    unfold relabel
    rw [tokensOf_relabel, tokensOf_relabel, hunplaced, h, ← hunplaced]
  have hprogram := congrArg program hbare
  rw [program_bare, program_bare, program_relabel relabeling_unplaced,
    program_relabel relabeling_unplaced] at hprogram
  obtain ⟨hstatements, hrest⟩ := Prod.mk.inj hprogram
  exact ⟨hstatements, (Prod.mk.inj hrest).1⟩

end Cursor

-- ============================================================= the result

/-- How the parses of two sources agree: they give the same statements, or
both fail for one reason at tokens of one content. -/
theorem parse_cases_of_contents {source source' : String}
    (h : (tokenize source').map Token.content = (tokenize source).map Token.content) :
    let parsed := (Cursor.ofSource source).program
    let parsed' := (Cursor.ofSource source').program
    parsed'.1 = parsed.1
      ∧ ((parsed'.2.1 = none ∧ parsed.2.1 = none)
        ∨ ∃ fault t t', parsed'.2.1 = some (.rejected fault (some t'))
            ∧ parsed.2.1 = some (.rejected fault (some t)) ∧ t'.content = t.content) := by
  obtain ⟨hstatements, hfailures⟩ := @Cursor.program_of_contents (.ofSource source')
    (.ofSource source) h
  refine ⟨hstatements, ?_⟩
  cases hfailed : (Cursor.ofSource source).program.2.1 with
  | none =>
      rw [hfailed, Option.map_none, Option.map_eq_none_iff] at hfailures
      exact .inl ⟨hfailures, rfl⟩
  | some failure =>
      rw [hfailed, Option.map_some, Option.map_eq_some_iff] at hfailures
      obtain ⟨failure', hfailed', hsame⟩ := hfailures
      obtain ⟨fault, t, rfl⟩ := (Cursor.sourced_ofSource source).program_rejected hfailed
      obtain ⟨fault', t', rfl⟩ := (Cursor.sourced_ofSource source').program_rejected hfailed'
      injection hsame with hfault htoken
      subst hfault
      exact .inr ⟨fault', t, t', hfailed', rfl, Token.unplaced_eq_iff.1 (Option.some.inj htoken)⟩

/-- Layout does not matter. Respaced, a source has no lexical errors, and its
tokens have the same kinds, lexemes and literals. It parses to the same
statements, or both are rejected for the same reason at a token of the same
kind and lexeme. And it runs the same on any machine: to the same value or
the same fault, if either, with the same scopes at the end and the same text
on standard output. -/
theorem respaced_source_equivalent (source : String) (m : Machine) :
    let parsed := (Cursor.ofSource source).program
    let parsed' := (Cursor.ofSource (respaced source)).program
    let run := runSource source .warn m
    let run' := runSource (respaced source) .warn m
    errorsOf (scan (respaced source)) = []
      ∧ (tokenize (respaced source)).map (fun t => (t.kind, t.lexeme, t.literal))
          = (tokenize source).map (fun t => (t.kind, t.lexeme, t.literal))
      ∧ ((parsed'.2.1 = none ∧ parsed.2.1 = none ∧ parsed'.1 = parsed.1)
        ∨ ∃ fault t t', parsed'.2.1 = some (.rejected fault (some t'))
            ∧ parsed.2.1 = some (.rejected fault (some t))
            ∧ t'.kind = t.kind ∧ t'.lexeme = t.lexeme)
      ∧ (∀ v, run'.1 = .ok v ↔ run.1 = .ok v)
      ∧ (∀ fault, run'.1 = .error (.runtime fault) ↔ run.1 = .error (.runtime fault))
      ∧ run'.2.env = run.2.env
      ∧ run'.2.trace.stdout = run.2.trace.stdout := by
  intro parsed parsed' run run'
  obtain ⟨herrors, hcontents⟩ := scan_respaced source
  obtain ⟨hstatements, hparses⟩ := parse_cases_of_contents hcontents
  obtain ⟨hrun, halike⟩ :=
    Cursor.run_alike Reporter.silent_warn (Cursor.ofSource source) .nil (.refl m)
  obtain ⟨hrun', halike'⟩ :=
    Cursor.run_alike Reporter.silent_warn (Cursor.ofSource (respaced source)) .nil (.refl m)
  unfold Cursor.runParsed at hrun halike hrun' halike'
  rw [hstatements] at hrun' halike'
  -- both runs evaluate the same statements
  have hend := halike.of_common halike'
  refine ⟨herrors, hcontents, ?_, fun v => ?_, fun fault => ?_, hend.env, hend.stdout⟩
  · rcases hparses with ⟨hnone', hnone⟩ | ⟨fault, t, t', hfailed', hfailed, hcontent⟩
    · exact .inl ⟨hnone', hnone, hstatements⟩
    · exact .inr ⟨fault, t, t', hfailed', hfailed, congrArg Prod.fst hcontent,
        congrArg (·.2.1) hcontent⟩
  · have hended : parsed'.2.1 = none ↔ parsed.2.1 = none := by
      rcases hparses with ⟨hnone', hnone⟩ | ⟨_, _, _, hfailed', hfailed, -⟩
      · exact iff_of_true hnone' hnone
      · exact iff_of_false (by rw [hfailed']; simp) (by rw [hfailed]; simp)
    show (runSource (respaced source) .warn m).1 = _ ↔ (runSource source .warn m).1 = _
    rw [runSource, runSource, hrun', hrun, answer_eq_ok_iff, answer_eq_ok_iff, hended]
  · show (runSource (respaced source) .warn m).1 = _ ↔ (runSource source .warn m).1 = _
    rw [runSource, runSource, hrun', hrun, answer_eq_runtime_iff, answer_eq_runtime_iff]

end Lox

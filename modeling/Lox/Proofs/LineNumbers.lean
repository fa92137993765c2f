/-
Line numbers are exact.

# In step

A scanner that has kept count (`Counts`) is in step with a text and on the
line that its offset is on (`lineAt`). Passing characters keeps the count,
since line feeds among them are added; and all a scan does is to pass
characters, over trivia and over events alike.

# Where events are read

`starts` lists the scanners at which a scan reads its events, each behind
the trivia that follow the event before. They have all kept count
(`events_eq_starts`), and an event has the line of the scanner that reads
it. The one exception is a string that is not closed: it is reported at the
end of the text, and on the line there.

# Failures

A parse of a text points at one of its tokens, so the line that its message
names is the one on which that token starts.
-/
import Lox.Proofs.ErrorSet
import Lox.Proofs.Tiling

namespace Lox

/-- The line that an offset of a text is on: one more than there are line
feeds before it. -/
def lineAt (text : List Char) (offset : Nat) : Nat :=
  1 + (text.take offset).count '\n'

namespace Scanner

-- ================================================================ in step

/-- A scanner in step with a text that is on the line of its offset. -/
structure Counts (s : Scanner) (text : List Char) : Prop extends s.Follows text where
  line : s.line = lineAt text s.pos

/-- At the start of a text, the line is the first. -/
theorem counts_ofSource (source : String) : (ofSource source).Counts source.toList :=
  ⟨follows_ofSource source, rfl⟩

namespace Counts

variable {s : Scanner} {text : List Char}

/-- Passing characters keeps count. -/
theorem pass (h : s.Counts text) {n : Nat} (hn : n ≤ s.rest.length) : (s.pass n).Counts text := by
  refine ⟨h.toFollows.pass hn, ?_⟩
  have hcount : (text.take (s.pos + n)).count '\n'
      = (text.take s.pos).count '\n' + (s.rest.take n).count '\n' := by
    rw [List.take_add, List.count_append, h.rest]
  show s.line + (s.rest.take n).count '\n' = 1 + (text.take (s.pos + n)).count '\n'
  rw [hcount, h.line, lineAt]
  omega

theorem skipTrivia (h : s.Counts text) : s.skipTrivia.Counts text :=
  h.pass (triviaLength_le s.rest)

theorem scanToken (h : s.Counts text) (hne : s.rest ≠ []) (hlead : Leadless s.rest) :
    (s.scanToken).2.Counts text := by
  obtain ⟨n, hn, hpass⟩ := (scans_scanToken hne).passes hlead
  rw [hpass]
  exact h.pass hn

end Counts

-- =================================================== where events are read

/-- The scanners at which the events of a scan are read, in order. -/
def starts (s : Scanner) : List Scanner :=
  let t := s.skipTrivia
  if _h : t.rest = [] then []
  else t :: starts (t.scanToken).2
termination_by s.rest.length
decreasing_by
  exact Nat.lt_of_lt_of_le (length_scanToken_lt _h) (length_skipTrivia_le s)

/-- A scan reads an event at each of its starts, with something ahead and no
trivia in front, and at the end of the text the end token. Everywhere it has
kept count. -/
theorem events_eq_starts {s : Scanner} {text : List Char} (h : s.Counts text) :
    (∀ t ∈ s.starts, t.Counts text ∧ t.rest ≠ [] ∧ Leadless t.rest)
      ∧ ∃ stop : Scanner, stop.Counts text ∧ stop.rest = []
          ∧ s.events = s.starts.map (fun t => (t.scanToken).1) ++ [.token stop.endToken] := by
  fun_induction events s with
  | case1 s t hrest =>
      rw [starts, dif_pos hrest]
      exact ⟨fun _ hu => absurd hu List.not_mem_nil, t, h.skipTrivia, hrest, rfl⟩
  | case2 s t hrest ih =>
      have hcounts : t.Counts text := h.skipTrivia
      have hlead : Leadless t.rest := leadless_skipTrivia s
      obtain ⟨hstarts, stop, hstop, hend, hevents⟩ := ih (hcounts.scanToken hrest hlead)
      rw [starts, dif_neg hrest, List.forall_mem_cons]
      refine ⟨⟨⟨hcounts, hrest, hlead⟩, hstarts⟩, stop, hstop, hend, ?_⟩
      rw [hevents]
      rfl

end Scanner

-- ================================================================== lines

namespace Event

/-- Where an event is said to be. -/
def offset : Event → Nat
  | .token t => t.start
  | .error e => e.offset

/-- The line that an event is said to be on. -/
def line : Event → Int
  | .token t => t.line
  | .error e => e.line

end Event

namespace Scanner

/-- An event is on the line of its offset. -/
theorem Scans.line {s s' : Scanner} {e : Event} {text : List Char} (h : Scans s e s')
    (hs : s.Counts text) : e.line = lineAt text e.offset := by
  have hfront : (s.line : Int) = lineAt text s.pos := congrArg Int.ofNat hs.line
  cases h with
  | string | number | word | mark | bad => exact hfront
  | openString =>
      -- reported where the string has taken all that is left
      exact congrArg Int.ofNat (hs.pass (Nat.le_refl s.rest.length)).line

/-- Every event has the line counted at its place. -/
theorem events_line {s : Scanner} {text : List Char} (h : s.Counts text) :
    ∀ e ∈ s.events, e.line = lineAt text e.offset := by
  obtain ⟨hstarts, stop, hstop, -, hevents⟩ := events_eq_starts h
  rw [hevents, List.forall_mem_append, List.forall_mem_map, List.forall_mem_singleton]
  refine ⟨fun t ht => ?_, congrArg Int.ofNat hstop.line⟩
  obtain ⟨hcounts, hne, -⟩ := hstarts t ht
  exact (scans_scanToken hne).line hcounts

end Scanner

theorem line_of_mem_tokenize {source : String} {t : Token} (h : t ∈ tokenize source) :
    t.line = lineAt source.toList t.start := by
  obtain ⟨event, hevent, ht⟩ := List.mem_filterMap.1 h
  have hline := Scanner.events_line (Scanner.counts_ofSource source) event hevent
  cases event with
  | token u =>
      cases ht
      exact hline
  | error e => cases ht

theorem line_of_mem_errorsOf {source : String} {e : LexError} (h : e ∈ errorsOf (scan source)) :
    e.line = lineAt source.toList e.offset := by
  obtain ⟨event, hevent, he⟩ := List.mem_filterMap.1 h
  have hline := Scanner.events_line (Scanner.counts_ofSource source) event hevent
  cases event with
  | token t => cases he
  | error e' =>
      cases he
      exact Int.ofNat.inj hline

-- =============================================================== failures

namespace Cursor

/-- The errors on record do not matter to how a parse fails. -/
theorem failure_forget (c : Cursor) :
    ({ c with reported := [] } : Cursor).program.2.1 = c.program.2.1 := by
  have hforget := congrArg (·.2.1) (program_bare { c with reported := [] })
  have hbare := congrArg (·.2.1) (program_bare c)
  exact hforget.symm.trans hbare

/-- A run that fails to parse fails as the parse does, whatever is done about
lexical errors. -/
theorem program_of_run {c : Cursor} {report : Reporter} {last : Value} {m : Machine}
    {failure : ParseFailure} (h : (c.run report last m).1 = .error (.parse failure)) :
    c.program.2.1 = some failure := by
  induction c, last, m using run_induction report with
  | ended hstep =>
      rw [run_ended hstep] at h
      cases h
  | rejected hstep =>
      rw [run_rejected hstep] at h
      cases h
      rw [program_eq, hstep]
  | faulted hstep heval =>
      rw [run_faulted hstep heval] at h
      cases h
  | step hstep heval ih =>
      rw [run_step hstep heval] at h
      rw [program_eq, hstep]
      dsimp only
      rw [← failure_forget]
      exact ih h

end Cursor

/-- A parse that fails an evaluation is one of the expression. -/
theorem expression_of_evalSource {source : String} {report : Reporter} {m : Machine}
    {failure : ParseFailure} (h : (evalSource source report m).1 = .error (.parse failure)) :
    (Cursor.ofSource source).expression.1 = .error failure := by
  unfold evalSource at h
  rcases hparsed : (Cursor.ofSource source).expression with ⟨failure' | e, c⟩
  · rw [hparsed] at h
    cases h
    rfl
  · rw [hparsed] at h
    dsimp only at h
    rw [Outcome.asRun_eq] at h
    cases parse_of_answer h

/-- `failure.NamesLine source`: the failure is an objection to a token of the
source, and its message names the line on which that token starts. -/
def ParseFailure.NamesLine (failure : ParseFailure) (source : String) : Prop :=
  ∃ fault t, failure = .rejected fault (some t) ∧ t ∈ tokenize source
    ∧ t.line = lineAt source.toList t.start
    ∧ failure.message = atLine (lineAt source.toList t.start) fault.message

/-- An objection names the line of its token. -/
theorem ParseFailure.IsObjection.namesLine {failure : ParseFailure} {source : String}
    (h : failure.IsObjection source) : failure.NamesLine source := by
  obtain ⟨fault, t, rfl, ht, -⟩ := h
  have hline := line_of_mem_tokenize ht
  refine ⟨fault, t, rfl, ht, hline, ?_⟩
  rw [← hline]
  rfl

-- ============================================================= the result

/-- Line numbers are exact. Every token of a source, the end token included,
is on the line on which it starts, and every lexical error on the line of its
offset. A failure to parse the source, as an expression or as a program and
also while it is run or evaluated, names the line on which the token starts
that it objects to. -/
theorem line_numbers_exact (source : String) :
    (∀ t ∈ tokenize source, t.line = lineAt source.toList t.start)
      ∧ (∀ e ∈ errorsOf (scan source), e.line = lineAt source.toList e.offset)
      ∧ (∀ failure, (Cursor.ofSource source).expression.1 = .error failure →
          failure.NamesLine source)
      ∧ (∀ failure, (Cursor.ofSource source).program.2.1 = some failure →
          failure.NamesLine source)
      ∧ (∀ report m failure, (runSource source report m).1 = .error (.parse failure) →
          failure.NamesLine source)
      ∧ (∀ report m failure, (evalSource source report m).1 = .error (.parse failure) →
          failure.NamesLine source) := by
  refine ⟨fun t => line_of_mem_tokenize, fun e => line_of_mem_errorsOf, fun failure h => ?_,
    fun failure h => ?_, fun report m failure h => ?_, fun report m failure h => ?_⟩
  · exact (Cursor.expression_objection h).namesLine
  · exact (Cursor.program_objection h).namesLine
  · exact (Cursor.program_objection (Cursor.program_of_run h)).namesLine
  · exact (Cursor.expression_objection (expression_of_evalSource h)).namesLine

/-- A string has the line of its opening quote, and an open one that of the
end. -/
theorem line_numbers_exact_over_strings :
    let source := "\"a\nb\" + \"c\nd"
    let string : Token := ⟨.string, "\"a\nb\"", some "a\nb", 0, 5, 1⟩
    let plus : Token := ⟨.plus, "+", none, 6, 7, 2⟩
    let unclosed : LexError := ⟨.unterminatedString, 12, 3⟩
    string ∈ tokenize source ∧ string.line = lineAt source.toList 0
      ∧ plus ∈ tokenize source ∧ plus.line = lineAt source.toList 6
      ∧ unclosed ∈ errorsOf (scan source) ∧ unclosed.line = lineAt source.toList 12
      ∧ ∃ failure, (Cursor.ofSource source).expression.1 = .error failure
          ∧ failure.NamesLine source := by
  intro source string plus unclosed
  have hstring : string ∈ tokenize source := by decide +kernel
  have hplus : plus ∈ tokenize source := by decide +kernel
  have hunclosed : unclosed ∈ errorsOf (scan source) := by decide +kernel
  have hfails : (Cursor.ofSource source).expression.1.isOk = false := by decide +kernel
  obtain ⟨htokens, herrors, hfailures, -⟩ := line_numbers_exact source
  refine ⟨hstring, htokens _ hstring, hplus, htokens _ hplus, hunclosed, herrors _ hunclosed, ?_⟩
  cases hparsed : (Cursor.ofSource source).expression.1 with
  | ok e =>
      rw [hparsed] at hfails
      cases hfails
  | error failure => exact ⟨failure, rfl, hfailures failure hparsed⟩

end Lox

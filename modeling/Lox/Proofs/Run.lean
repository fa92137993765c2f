/-
Running while reading is parsing first and running then.

A run takes a statement from the cursor, evaluates it, and only then looks
for the next one; lexical errors are told of in between. `runParsed` does
the same in two phases: it parses to the end or the first failure, then
evaluates the statements in order, and answers with the failure if no fault
came first. Both take the same statements from the same cursor
(`program_eq`), the errors on record do not matter to the parse
(`program_bare`), and telling of them does not show (`Alike`). So the two
agree step by step, and the whole runs do by induction over the lazy one.
-/
import Lox.Run
import Lox.Proofs.Effects
import Lox.Proofs.Tokens

namespace Lox

open Grammar (Statement Statements)

-- ============================================================== reporters

/-- A way of telling about lexical errors that does not show on standard
output. -/
def Reporter.Silent (report : Reporter) : Prop :=
  ∀ e, Trace.stdout [report e] = ""

/-- A warning prints nothing on the standard output. -/
theorem Reporter.silent_warn : Reporter.warn.Silent := by
  intro e
  rfl

theorem Reporter.Silent.stdout_map {report : Reporter} (h : report.Silent)
    (errors : List LexError) : Trace.stdout (errors.map report) = "" := by
  induction errors with
  | nil => rfl
  | cons e errors ih =>
      rw [List.map_cons, ← List.singleton_append, Trace.stdout_append, h e, ih]
      rfl

/-- Telling errors without printing them changes no scope and no output. -/
theorem Machine.alike_tell {report : Reporter} (h : report.Silent) (m : Machine) (c : Cursor) :
    m.Alike (m.tell report c) := by
  refine ⟨rfl, ?_⟩
  show Trace.stdout (m.trace ++ _) = _
  rw [Trace.stdout_append, h.stdout_map, String.append_empty]

-- ============================================================= lazy runs

namespace Cursor

variable {c c' : Cursor} {report : Reporter} {last : Value} {m : Machine}

/-- What a run does with its next statement. -/
theorem runTelling_eq (c : Cursor) (report : Reporter) (last : Value) (m : Machine)
    (told : List LexError) :
    c.runTelling report last m told = match c.programStep with
      | (none, c') => ((.ok last, m.tell report c'), told ++ c'.reported)
      | (some (.error failure), c') =>
          ((.error (.parse failure), m.tell report c'), told ++ c'.reported)
      | (some (.ok n), c') =>
          match n.eval (m.tell report c') with
          | (.error fault, m) => ((.error (.runtime fault), m), told ++ c'.reported)
          | (.ok v, m) =>
              ({ c' with reported := [] } : Cursor).runTelling report v m
                (told ++ c'.reported) := by
  rw [runTelling]
  split
  · next h => rw [(Prod.ext h rfl : c.programStep = (none, (c.programStep).2))]
  · next f h => rw [(Prod.ext h rfl : c.programStep = (some (.error f), (c.programStep).2))]
  · next n h =>
      rewrite [(Prod.ext h rfl : c.programStep = (some (.ok n), (c.programStep).2))]
      rfl

/-- Induction along a run: it is over at the end token, at a statement that
does not parse and behind one that faults, and goes on behind one that runs
through. -/
@[elab_as_elim]
theorem run_induction (report : Reporter) {motive : Cursor → Value → Machine → Prop}
    (ended : ∀ {c last m c'}, c.programStep = (none, c') → motive c last m)
    (rejected : ∀ {c last m c' failure}, c.programStep = (some (.error failure), c') →
      motive c last m)
    (faulted : ∀ {c last m c' n fault m'}, c.programStep = (some (.ok n), c') →
      n.eval (m.tell report c') = (.error fault, m') → motive c last m)
    (step : ∀ {c last m c' n v m'}, c.programStep = (some (.ok n), c') →
      n.eval (m.tell report c') = (.ok v, m') →
      motive { c' with reported := [] } v m' → motive c last m)
    (c : Cursor) (last : Value) (m : Machine) : motive c last m := by
  induction c, last, m, ([] : List LexError) using runTelling.induct report with
  | case1 c last m _ h => exact ended (Prod.ext h rfl)
  | case2 c last m _ failure h => exact rejected (Prod.ext h rfl)
  | case3 c last m _ n h fault m' heval => exact faulted (Prod.ext h rfl) heval
  | case4 c last m _ _ n h v m' heval ih => exact step (Prod.ext h rfl) heval ih

/-- What has been told already is handed on, and takes no other part. -/
theorem runTelling_append (c : Cursor) (report : Reporter) (last : Value) (m : Machine)
    (told told' : List LexError) :
    c.runTelling report last m (told ++ told')
      = ((c.runTelling report last m told').1, told ++ (c.runTelling report last m told').2) := by
  induction c, last, m using run_induction report generalizing told' with
  | ended hstep | rejected hstep =>
      simp only [runTelling_eq _ report, hstep, List.append_assoc]
  | faulted hstep heval =>
      simp only [runTelling_eq _ report, hstep, heval, List.append_assoc]
  | @step c last m c' n v m' hstep heval ih =>
      rw [runTelling_eq, runTelling_eq c, hstep]
      dsimp only
      rw [heval]
      dsimp only
      rw [List.append_assoc, ih]

/-- A run is over at the end token. -/
theorem runTelling_ended (h : c.programStep = (none, c')) :
    c.runTelling report last m [] = ((.ok last, m.tell report c'), c'.reported) := by
  rw [runTelling_eq, h]
  rfl

/-- A run at the end of its text gives the last value and reports what was
passed over. -/
theorem run_ended (h : c.programStep = (none, c')) :
    c.run report last m = (.ok last, m.tell report c') :=
  congrArg Prod.fst (runTelling_ended h)

/-- The errors passed over are those the run tells. -/
theorem toldInRun_ended (h : c.programStep = (none, c')) :
    c.toldInRun report last m = c'.reported :=
  congrArg Prod.snd (runTelling_ended h)

section

variable {failure : ParseFailure} (h : c.programStep = (some (.error failure), c'))
include h

/-- A run fails at a statement that does not parse. -/
theorem runTelling_rejected :
    c.runTelling report last m [] = ((.error (.parse failure), m.tell report c'), c'.reported) := by
  rw [runTelling_eq, h]
  rfl

/-- A run at a statement that does not parse fails with it. -/
theorem run_rejected : c.run report last m = (.error (.parse failure), m.tell report c') :=
  congrArg Prod.fst (runTelling_rejected h)

/-- It tells the errors passed over on the way to the failure. -/
theorem toldInRun_rejected : c.toldInRun report last m = c'.reported :=
  congrArg Prod.snd (runTelling_rejected h)

end

section

variable {n : Node} {fault : Fault} {m' : Machine} (h : c.programStep = (some (.ok n), c'))
  (heval : n.eval (m.tell report c') = (.error fault, m'))
include h heval

/-- A run fails behind a statement that faults. -/
theorem runTelling_faulted :
    c.runTelling report last m [] = ((.error (.runtime fault), m'), c'.reported) := by
  rw [runTelling_eq, h]
  dsimp only
  rw [heval]
  rfl

/-- A run at a statement that faults fails with the fault, and reports nothing
more. -/
theorem run_faulted : c.run report last m = (.error (.runtime fault), m') :=
  congrArg Prod.fst (runTelling_faulted h heval)

/-- It tells the errors passed over before the statement. -/
theorem toldInRun_faulted : c.toldInRun report last m = c'.reported :=
  congrArg Prod.snd (runTelling_faulted h heval)

end

section

variable {n : Node} {v : Value} {m' : Machine} (h : c.programStep = (some (.ok n), c'))
  (heval : n.eval (m.tell report c') = (.ok v, m'))
include h heval

/-- A statement that runs through tells of what its cursor has on record, and
the run goes on behind it. -/
theorem runTelling_step :
    c.runTelling report last m []
      = (({ c' with reported := [] } : Cursor).run report v m',
          c'.reported ++ ({ c' with reported := [] } : Cursor).toldInRun report v m') := by
  rw [runTelling_eq, h]
  dsimp only
  rw [heval]
  dsimp only
  rw [List.nil_append, ← List.append_nil c'.reported, runTelling_append, List.append_nil]
  rfl

/-- A statement that is evaluated leaves the run to go on after it. -/
theorem run_step :
    c.run report last m = ({ c' with reported := [] } : Cursor).run report v m' := by
  rw [run, runTelling_step h heval]

/-- The errors before a statement are told before those behind it. -/
theorem toldInRun_step :
    c.toldInRun report last m
      = c'.reported ++ ({ c' with reported := [] } : Cursor).toldInRun report v m' := by
  rw [toldInRun, runTelling_step h heval]

end

end Cursor

-- ============================================================= two phases

/-- The answer of running statements behind which parsing may have failed: a
fault while running comes first. -/
def answer : Except Fault Value → Option ParseFailure → Except Failure Value
  | .error fault, _ => .error (.runtime fault)
  | .ok _, some failure => .error (.parse failure)
  | .ok v, none => .ok v

/-- A run answers with a value if neither phase failed. -/
theorem answer_eq_ok_iff {r : Except Fault Value} {stop : Option ParseFailure} {v : Value} :
    answer r stop = .ok v ↔ r = .ok v ∧ stop = none := by
  cases r <;> cases stop <;> simp [answer]

/-- A fault is the answer whatever the parser would still have said. -/
theorem answer_eq_runtime_iff {r : Except Fault Value} {stop : Option ParseFailure}
    {fault : Fault} : answer r stop = .error (.runtime fault) ↔ r = .error fault := by
  cases r <;> cases stop <;> simp [answer]

/-- A parse failure is the answer if all statements before it were evaluated. -/
theorem answer_eq_parse_iff {r : Except Fault Value} {stop : Option ParseFailure}
    {failure : ParseFailure} :
    answer r stop = .error (.parse failure) ↔ (∃ v, r = .ok v) ∧ stop = some failure := by
  cases r <;> cases stop <;> simp [answer]

/-- Only a parse that has failed makes a run fail so. -/
theorem parse_of_answer {r : Except Fault Value} {stop : Option ParseFailure}
    {failure : ParseFailure} (h : answer r stop = .error (.parse failure)) :
    stop = some failure :=
  (answer_eq_parse_iff.1 h).2

theorem Outcome.asRun_eq (r : Outcome Value) : r.asRun = (answer r.1 none, r.2) := by
  rcases r with ⟨fault | v, m⟩ <;> rfl

theorem Node.evalAll_one (n : Node) (last : Value) (m : Machine) :
    Node.evalAll [n] last m = n.eval m := by
  rw [Node.evalAll]
  rcases n.eval m with ⟨fault | v, m'⟩ <;> rfl

namespace Cursor

/-- Parse all that can be parsed, and then run it. -/
def runParsed (c : Cursor) (last : Value) (m : Machine) : RunOutcome :=
  (answer (Node.evalAll c.program.1 last m).1 c.program.2.1, (Node.evalAll c.program.1 last m).2)

/-- The errors on record do not matter. -/
theorem runParsed_bare (c : Cursor) (last : Value) (m : Machine) :
    c.bare.runParsed last m = c.runParsed last m := by
  unfold runParsed
  rw [program_bare]

/-- What the cursor has passed over does not matter to a parsed run. -/
theorem runParsed_forget (c : Cursor) (last : Value) (m : Machine) :
    ({ c with reported := [] } : Cursor).runParsed last m = c.runParsed last m := by
  rw [← runParsed_bare c, ← runParsed_bare]
  rfl

/-- A parsed run at the end of its text gives the last value. -/
theorem runParsed_none {c c' : Cursor} (h : c.programStep = (none, c')) (last : Value)
    (m : Machine) : c.runParsed last m = (.ok last, m) := by
  unfold runParsed
  rw [program_eq, h]
  rfl

/-- At a statement that does not parse it fails with it. -/
theorem runParsed_error {c c' : Cursor} {failure : ParseFailure}
    (h : c.programStep = (some (.error failure), c')) (last : Value) (m : Machine) :
    c.runParsed last m = (.error (.parse failure), m) := by
  unfold runParsed
  rw [program_eq, h]
  rfl

/-- Otherwise it evaluates the statement and goes on. -/
theorem runParsed_ok {c c' : Cursor} {n : Node} (h : c.programStep = (some (.ok n), c'))
    (last : Value) (m : Machine) :
    c.runParsed last m = match n.eval m with
      | (.error fault, m) => (.error (.runtime fault), m)
      | (.ok v, m) => c'.runParsed v m := by
  unfold runParsed
  rw [program_eq, h]
  dsimp only
  rw [Node.evalAll]
  rcases n.eval m with ⟨fault | v, m'⟩
  · rfl
  · rfl

/-- A lazy run and a run in two phases, from alike machines, have the same
answer and end alike. -/
theorem run_alike {report : Reporter} (hreport : report.Silent) (c : Cursor) (last : Value)
    {m m' : Machine} (h : m.Alike m') :
    (c.run report last m').1 = (c.runParsed last m).1
      ∧ (c.runParsed last m).2.Alike (c.run report last m').2 := by
  induction c, last, m' using run_induction report generalizing m with
  | ended hstep =>
      rw [run_ended hstep, runParsed_none hstep]
      exact ⟨rfl, h.trans (Machine.alike_tell hreport _ _)⟩
  | rejected hstep =>
      rw [run_rejected hstep, runParsed_error hstep]
      exact ⟨rfl, h.trans (Machine.alike_tell hreport _ _)⟩
  | @faulted c last m' c' n fault m'' hstep heval =>
      obtain ⟨hfst, halike⟩ := (h.trans (Machine.alike_tell hreport m' _)).eval n
      rw [heval] at hfst halike
      have hm : n.eval m = (.error fault, (n.eval m).2) := Prod.ext hfst.symm rfl
      rw [run_faulted hstep heval, runParsed_ok hstep, hm]
      exact ⟨rfl, halike⟩
  | @step c last m' c' n v m'' hstep heval ih =>
      obtain ⟨hfst, halike⟩ := (h.trans (Machine.alike_tell hreport m' _)).eval n
      rw [heval] at hfst halike
      have hm : n.eval m = (.ok v, (n.eval m).2) := Prod.ext hfst.symm rfl
      rw [run_step hstep heval, runParsed_ok hstep, hm]
      dsimp only
      have hrest := ih halike
      rwa [runParsed_forget] at hrest

/-- Where a parse stops at a failure, no statement follows. -/
theorem Stops.not_statement {c c' : Cursor} {failure : ParseFailure}
    (h : c.Stops (some failure) c') {us vs : List Token} (hc : tokensOf c.pending = us ++ vs)
    (n : Node) : ¬ Statement us n := by
  intro hs
  obtain ⟨c₁, htakes, -⟩ := exists_takes hc
  cases h with
  | failed _ hstatement =>
      rw [statement_of_takes hs htakes] at hstatement
      cases hstatement

/-- The tokens of a source are those of the statements it gives, and a rest:
the end token, or tokens that are rejected since no statement starts there. -/
theorem program_split (source : String) :
    ∃ complete rest, tokenize source = complete ++ rest
      ∧ Statements complete (Cursor.ofTokens (tokenize source)).program.1
      ∧ ((Cursor.ofTokens (tokenize source)).program.2.1 = none →
          ∃ last, rest = [last] ∧ last.kind = .eof)
      ∧ (∀ failure, (Cursor.ofTokens (tokenize source)).program.2.1 = some failure →
          (∃ fault t, failure = .rejected fault (some t))
            ∧ ∀ us vs n, rest = us ++ vs → ¬ Statement us n) := by
  have hsourced : (Cursor.ofTokens (tokenize source)).Sourced := by
    obtain ⟨body, last, hbody, hrest⟩ := tokenize_eq source
    exact ⟨body, last, (tokensOf_map_token _).trans hbody, hrest⟩
  obtain ⟨ts, c, hss, htakes, hstops⟩ := (Cursor.ofTokens (tokenize source)).program_takes
  refine ⟨ts, tokensOf c.pending, ?_, hss, ?_, ?_⟩
  · rw [← htakes.tokens]
    exact (tokensOf_map_token _).symm
  · intro hnone
    rw [hnone] at hstops
    exact (hsourced.statements hss htakes).tokens_atEnd hstops.finished
  · intro failure hsome
    rw [hsome] at hstops
    exact ⟨hstops.rejected (hsourced.statements hss htakes),
      fun us vs n hrest => hstops.not_statement hrest n⟩

end Cursor

/-- A run of a source is parsing its tokens as far as they parse and then
running the statements: the same fault, failure or value, the same scopes at
the end, and the same on standard output. What is run are complete
statements, all those before the end or before the first that does not
parse. -/
theorem run_refines_parse_then_run (source : String) (m : Machine) :
    let parsed := (Cursor.ofTokens (tokenize source)).program
    let ran := Node.evalAll parsed.1 .nil m
    let run := runSource source .warn m
    run.1 = answer ran.1 parsed.2.1
      ∧ run.2.env = ran.2.env
      ∧ run.2.trace.stdout = ran.2.trace.stdout
      ∧ ∃ complete rest, tokenize source = complete ++ rest
          ∧ Statements complete parsed.1
          ∧ (parsed.2.1 = none → ∃ last, rest = [last] ∧ last.kind = .eof)
          ∧ (∀ failure, parsed.2.1 = some failure →
              (∃ fault t, failure = .rejected fault (some t))
                ∧ ∀ us vs n, rest = us ++ vs → ¬ Statement us n) := by
  have hbare : (Cursor.ofSource source).bare = Cursor.ofTokens (tokenize source) := rfl
  obtain ⟨hfst, halike⟩ :=
    Cursor.run_alike Reporter.silent_warn (Cursor.ofSource source) .nil (.refl m)
  rw [← Cursor.runParsed_bare, hbare] at hfst halike
  exact ⟨hfst, halike.env, halike.stdout, Cursor.program_split source⟩

/-- A source whose second statement does not parse: the first one has run by
then, and in what is left no statement starts. -/
theorem run_of_rejected_source :
    let source := "print true; print 1 2;"
    (runSource source .warn {}).2.trace.stdout = "true\n"
      ∧ (Node.evalAll (Cursor.ofTokens (tokenize source)).program.1 .nil {}).2.trace.stdout
          = "true\n"
      ∧ ∃ complete rest failure, tokenize source = complete ++ rest
          ∧ (runSource source .warn {}).1 = .error (.parse failure)
          ∧ ∀ us vs n, rest = us ++ vs → ¬ Statement us n := by
  intro source
  have hshown : (runSource source .warn {}).2.trace.stdout = "true\n" := by decide +kernel
  have hstop : (Cursor.ofTokens (tokenize source)).program.2.1 ≠ none := by decide +kernel
  have hran : (Node.evalAll (Cursor.ofTokens (tokenize source)).program.1 .nil {}).1.isOk
      = true := by decide +kernel
  obtain ⟨hanswer, -, hstdout, complete, rest, htokens, -, -, hrejected⟩ :=
    run_refines_parse_then_run source {}
  refine ⟨hshown, hstdout.symm.trans hshown, complete, rest, ?_⟩
  cases hfailure : (Cursor.ofTokens (tokenize source)).program.2.1 with
  | none => exact absurd hfailure hstop
  | some failure =>
      refine ⟨failure, htokens, ?_, (hrejected failure hfailure).2⟩
      rw [hanswer, hfailure]
      rcases hv : (Node.evalAll (Cursor.ofTokens (tokenize source)).program.1 .nil {}).1
        with fault | v
      · rw [hv] at hran
        cases hran
      · rfl

end Lox

/-
What a command writes to the error stream.

Lexical errors are echoed there as they are met, and the failure that ends
the command comes last; evaluation prints and logs but reports nothing
(`Node.quiet_eval`). So the reports of a run are the errors that it tells of
(`Cursor.reports_run`): those that its cursor has put on record, piece by
piece, at each statement those since the last.

A run halts in one of three ways: at the end token, at a token it objects
to, or behind a statement that faults. Each time there is one token that
the reader has come to and not looked beyond, and the errors before that
token are what has been told (`HaltsAt`). A statement that runs through
hands this on to the cursor before it, and by induction over the statements
a whole run has it from where it starts (`HaltsAt.through`).
-/
import Lox.Command
import Lox.Proofs.ErrorSet
import Lox.Proofs.Reports
import Mathlib.Control.Monad.Basic

namespace Lox

open Grammar (Statement Statements)

-- ================================================================ reports

/-- Whether an effect is text for the error stream. Log records, which the
level may hide, are not. -/
def Effect.isReport : Effect → Bool
  | .err _ => true
  | _ => false

/-- The reports among some effects, in order. -/
def Trace.reports (t : Trace) : Trace :=
  t.filter Effect.isReport

namespace Trace

@[simp]
theorem reports_nil : Trace.reports [] = [] := rfl

/-- The reports of a longer trace are those of its parts. -/
@[simp]
theorem reports_append (t u : Trace) : Trace.reports (t ++ u) = t.reports ++ u.reports :=
  List.filter_append t u

/-- Text for the error stream is kept. -/
theorem reports_eq_self {t : Trace} (h : ∀ effect ∈ t, effect.isReport = true) : t.reports = t :=
  List.filter_eq_self.2 h

end Trace

-- ================================================================== lines

/-- A line of the error stream that places a message in the source. -/
def placedLine (line : Int) (message : String) : Effect :=
  .err ("[line " ++ toString line ++ "] Error: " ++ message ++ "\n")

/-- The lines that report lexical errors. -/
def errorLines (errors : List LexError) : Trace :=
  errors.map fun e =>
    placedLine e.line <|
      match e.fault with
      | .unexpectedCharacter (some c) => "Unexpected character: " ++ String.singleton c
      | .unexpectedCharacter none => "Unexpected character: "
      | .unterminatedString => "Unterminated string."

/-- The mark for a backtrace, where one is asked for. -/
def traceLines (showTrace : Bool) : Trace :=
  if showTrace then [.err "<traceback>\n"] else []

/-- The lines for errors one after the other. -/
@[simp]
theorem errorLines_append (errors errors' : List LexError) :
    errorLines (errors ++ errors') = errorLines errors ++ errorLines errors' :=
  List.map_append

/-- What a command echoes are these lines. -/
theorem map_echo (errors : List LexError) : errors.map Reporter.echo = errorLines errors := by
  refine List.map_congr_left fun e _ => ?_
  obtain ⟨⟨⟨⟩ | c⟩ | ⟨⟩, offset, line⟩ := e <;> rfl

/-- A line about a lexical error is a report. -/
@[simp]
theorem reports_errorLines (errors : List LexError) :
    (errorLines errors).reports = errorLines errors := by
  refine Trace.reports_eq_self fun effect heffect => ?_
  obtain ⟨e, -, rfl⟩ := List.mem_map.1 heffect
  rfl

/-- So is all that is said about a failure. -/
@[simp]
theorem reports_failureReport (showTrace : Bool) (message : String) :
    (failureReport showTrace message).reports = failureReport showTrace message := by
  cases showTrace <;> rfl

/-- Telling of lexical errors on the error stream shows nothing on standard
output. -/
theorem Reporter.silent_echo : Reporter.echo.Silent := by
  intro e
  rfl

/-- An outcome from `m` that has reported nothing. -/
def Quiet {α : Type} (m : Machine) (r : Outcome α) : Prop :=
  r.2.trace.reports = m.trace.reports

namespace Machine

variable (m : Machine)

/-- Telling errors adds a line for each one. -/
theorem reports_tell (c : Cursor) :
    (m.tell .echo c).trace.reports = m.trace.reports ++ errorLines c.reported := by
  unfold tell emitAll
  rw [Trace.reports_append, map_echo, reports_errorLines]

/-- A log record is no report. -/
theorem Logs.reports {m m' : Machine} (h : m.Logs m') : m'.trace.reports = m.trace.reports := by
  rcases h with htrace | ⟨record, htrace⟩
  · rw [htrace]
  · rw [htrace, Trace.reports_append]
    exact List.append_nil _

end Machine

namespace Quiet

variable {α β : Type} {m : Machine}

/-- What is quiet at each step is quiet. -/
theorem andThen {r : Outcome α} {k : α → Machine → Outcome β} (h : Quiet m r)
    (hk : ∀ a m', Quiet m' (k a m')) : Quiet m (r.andThen k) := by
  rcases r with ⟨fault | a, m'⟩
  · exact h
  · exact (hk a m').trans h

/-- Operators report nothing. -/
theorem applied (r : Except TypeFault Value) : Quiet m (applied r m) := by
  cases r <;> rfl

theorem printed (v : Value) : Quiet m (printed v m) := by
  unfold Lox.printed
  split
  · exact (Trace.reports_append _ _).trans (List.append_nil _)
  · rfl

theorem reassigned (x : String) (v : Value) : Quiet m (reassigned x v m) := by
  unfold Lox.reassigned
  split
  · exact (m.logs_assign x v).reports
  · rfl

/-- A block reports what its statements do. -/
theorem leaveBlock {r : Outcome Value} (h : Quiet (m.push blockName) r) :
    Quiet m (leaveBlock r) :=
  (logs_leaveBlock r).reports.trans (h.trans (m.logs_push blockName).reports)

end Quiet

mutual

/-- Evaluation reports nothing. -/
theorem Node.quiet_eval : ∀ (n : Node) (m : Machine), Quiet m (n.eval m)
  | .literal _, _ => rfl
  | .variable _, _ => rfl
  | .unary _ operand, m => (Node.quiet_eval operand m).andThen fun _ _ => .applied _
  | .binary _ left right, m =>
      (Node.quiet_eval left m).andThen fun _ m =>
        (Node.quiet_eval right m).andThen fun _ _ => .applied _
  | .assignment x value, m =>
      (Node.quiet_eval value m).andThen fun v m => (m.logs_assign x v).reports
  | .exprStmt expr, m => Node.quiet_eval expr m
  | .printStmt expr, m => (Node.quiet_eval expr m).andThen fun v _ => .printed v
  | .declare x, m => (m.logs_declare x).reports
  | .define x init, m =>
      (Node.quiet_eval init m).andThen fun v m =>
        ((m.declare x).logs_assign x v).reports.trans (m.logs_declare x).reports
  | .assignStmt x value, m => (Node.quiet_eval value m).andThen fun v _ => .reassigned x v
  | .block statements, m => (Node.quiet_evalAll statements .nil (m.push blockName)).leaveBlock
  | .unknown, _ => rfl

theorem Node.quiet_evalAll : ∀ (ns : List Node) (last : Value) (m : Machine),
    Quiet m (Node.evalAll ns last m)
  | [], _, _ => rfl
  | n :: ns, _, m => (Node.quiet_eval n m).andThen fun v m => Node.quiet_evalAll ns v m

end

-- ================================================================ halting

namespace Cursor

/-- What is on record takes no part in taking tokens. -/
theorem Takes.elsewhere {c c' : Cursor} {ts : List Token} (h : c.Takes ts c')
    (reported : List LexError) :
    ∃ reported', (Cursor.mk c.pending reported).Takes ts ⟨c'.pending, reported'⟩ := by
  induction h generalizing reported with
  | nil c => exact ⟨reported, .nil _⟩
  | @cons c c₁ c' t ts hnext _ ih =>
      obtain ⟨skipped, hskipped, hc, -⟩ := next_eq_some_iff.1 hnext
      obtain ⟨reported', htakes⟩ := ih (reported ++ errorsOf skipped)
      exact ⟨reported', .cons (next_of_pending hc hskipped) htakes⟩

/-- A run reports the lexical errors that it tells of. -/
theorem reports_run (c : Cursor) (last : Value) (m : Machine) :
    (c.run .echo last m).2.trace.reports
      = m.trace.reports ++ errorLines (c.toldInRun .echo last m) := by
  induction c, last, m using run_induction .echo with
  | ended hstep =>
      rw [run_ended hstep, toldInRun_ended hstep]
      exact Machine.reports_tell _ _
  | rejected hstep =>
      rw [run_rejected hstep, toldInRun_rejected hstep]
      exact Machine.reports_tell _ _
  | @faulted c last m c' n fault m' hstep heval =>
      have hquiet := n.quiet_eval (m.tell .echo c')
      rw [heval] at hquiet
      rw [run_faulted hstep heval, toldInRun_faulted hstep heval]
      exact hquiet.trans (m.reports_tell c')
  | @step c last m c' n v m' hstep heval ih =>
      have hquiet := n.quiet_eval (m.tell .echo c')
      rw [heval] at hquiet
      have hm' : m'.trace.reports = m.trace.reports ++ errorLines c'.reported :=
        hquiet.trans (m.reports_tell c')
      rw [run_step hstep heval, toldInRun_step hstep heval, ih, hm', errorLines_append,
        List.append_assoc]

/-- A run from `c` ends in the given way, and by then has told of the errors
before `z`. -/
structure HaltsAt (c : Cursor) (last : Value) (m : Machine) (z : Token)
    (result : Except Failure Value) : Prop where
  result : (c.run .echo last m).1 = result
  told : c.Told z (c.toldInRun .echo last m)

section

variable {c : Cursor} {z : Token} (last : Value) (m : Machine)

/-- A run halts at the end token. -/
theorem halts_atEnd (hfront : c.settle.front? = some z) (hz : z.kind = .eof) :
    c.HaltsAt last m z (.ok last) := by
  have hend : c.AtEnd := fun t ht => by
    rw [hfront] at ht
    rw [← Option.some.inj ht, hz]
  have hstep : c.programStep = (none, c.settle) := programStep_eq_none_iff.2 ⟨hend, rfl⟩
  constructor
  · rw [run_ended hstep]
  · rw [toldInRun_ended hstep]
    exact told_of_front hfront

/-- A run halts at a token that the next statement is rejected at. -/
theorem halts_rejected {fault : SyntaxFault}
    (h : (c.programStep).1 = some (.error (.rejected fault (some z)))) :
    c.HaltsAt last m z (.error (.parse (.rejected fault (some z)))) := by
  have hstep : c.programStep = (some (.error (.rejected fault (some z))), (c.programStep).2) :=
    Prod.ext h rfl
  have hstatement := (programStep_error hstep).2
  have htold := statementIn_points [] c fault z (congrArg Prod.fst hstatement)
  rw [show statementIn [] c = _ from hstatement] at htold
  constructor
  · rw [run_rejected hstep]
  · rw [toldInRun_rejected hstep]
    exact htold

/-- A run halts behind a statement that faults, at the last token of it. -/
theorem halts_faulted {c' : Cursor} {ts : List Token} {n : Node} {fault : Fault}
    (hs : Statement (ts ++ [z]) n) (htakes : c.Takes (ts ++ [z]) c')
    (heval : (n.eval (m.tell .echo c')).1 = .error fault) :
    c.HaltsAt last m z (.error (.runtime fault)) := by
  have hstep := programStep_eq_ok_iff.2 ⟨_, hs, htakes⟩
  have heval' : n.eval (m.tell .echo c') = (.error fault, _) := Prod.ext heval rfl
  obtain ⟨passed, hc, -, hreported⟩ := htakes.last_event
  constructor
  · rw [run_faulted hstep heval']
  · rw [toldInRun_faulted hstep heval']
    exact ⟨passed, c'.pending, hc, hreported⟩

end

/-- Behind a statement that runs through, the run goes on with nothing on
record. -/
theorem HaltsAt.step {c c' : Cursor} {ts : List Token} {n : Node} {last v : Value}
    {m m' : Machine} {z : Token} {result : Except Failure Value} (hs : Statement ts n)
    (htakes : c.Takes ts c') (heval : n.eval (m.tell .echo c') = (.ok v, m'))
    (h : HaltsAt { c' with reported := [] } v m' z result) : c.HaltsAt last m z result := by
  have hstep := programStep_eq_ok_iff.2 ⟨_, hs, htakes⟩
  obtain ⟨passed, rest, hc', htold⟩ := h.told
  constructor
  · rw [run_step hstep heval]
    exact h.result
  · rw [toldInRun_step hstep heval, htold]
    exact htakes.reaches.told ⟨passed, rest, hc', rfl⟩

/-- Where a run halts behind statements that run through, it halts from
before them. The errors on record and the reports so far are of no
account. -/
theorem HaltsAt.through {c : Cursor} {rest : List Event} {errors : List LexError}
    {ts : List Token} {ss : List Node} {last v : Value} {m m' m₁ : Machine} {z : Token}
    {result : Except Failure Value} (hss : Statements ts ss) (htakes : c.Takes ts ⟨rest, errors⟩)
    (heval : Node.evalAll ss last m = (.ok v, m')) (hm : m.Alike m₁)
    (h : ∀ reported m₁', m'.Alike m₁' → HaltsAt ⟨rest, reported⟩ v m₁' z result) :
    c.HaltsAt last m₁ z result := by
  induction ss generalizing c errors ts last m m₁ with
  | nil =>
      cases hss
      cases htakes
      cases heval
      exact h errors m₁ hm
  | cons s ss ih =>
      obtain ⟨⟩ | ⟨hs, hss⟩ := hss
      obtain ⟨c₁, hus, hvs⟩ := htakes.append_inv
      obtain ⟨errors', hvs'⟩ := hvs.elsewhere []
      rw [Node.evalAll] at heval
      rcases hs₁ : s.eval m with ⟨fault | w, m₂⟩
      · rw [hs₁] at heval
        cases heval
      · rw [hs₁] at heval
        obtain ⟨hfst, halike⟩ := (hm.trans (Machine.alike_tell Reporter.silent_echo m₁ c₁)).eval s
        rw [hs₁] at hfst halike
        have hs₁' : s.eval (m₁.tell .echo c₁) = (.ok w, (s.eval (m₁.tell .echo c₁)).2) :=
          Prod.ext hfst rfl
        exact .step hs hus hs₁' (ih hss hvs' heval halike)

end Cursor

-- ============================================================= statements

/-- The first statement that faults, if any does, and those before it. -/
theorem Node.evalAll_error {ns : List Node} {last : Value} {m : Machine} {fault : Fault}
    (h : (Node.evalAll ns last m).1 = .error fault) :
    ∃ before n after v m', ns = before ++ n :: after
      ∧ Node.evalAll before last m = (.ok v, m') ∧ (n.eval m').1 = .error fault := by
  induction ns generalizing last m with
  | nil => cases h
  | cons n ns ih =>
      rw [Node.evalAll] at h
      rcases hn : n.eval m with ⟨fault' | v, m₁⟩
      · rw [hn] at h
        exact ⟨[], n, ns, last, m, rfl, rfl, by rw [hn]; exact h⟩
      · rw [hn] at h
        obtain ⟨before, n', after, w, m', rfl, hbefore, hfault⟩ := ih h
        refine ⟨n :: before, n', after, w, m', rfl, ?_, hfault⟩
        rw [Node.evalAll, hn]
        exact hbefore

/-- The tokens of statements in two parts. -/
theorem Grammar.statements_append_inv {ts : List Token} {ss ss' : List Node}
    (h : Statements ts (ss ++ ss')) :
    ∃ us vs, ts = us ++ vs ∧ Statements us ss ∧ Statements vs ss' := by
  induction ss generalizing ts with
  | nil => exact ⟨[], ts, rfl, .nil, h⟩
  | cons s ss ih =>
      obtain ⟨⟩ | ⟨hs, hss⟩ := h
      obtain ⟨us, vs, rfl, hus, hvs⟩ := ih hss
      exact ⟨_ ++ us, vs, (List.append_assoc _ _ _).symm, .cons hs hus, hvs⟩

/-- `RaisesAt source z fault`: the source starts with statements, those but
the last run through, the last one ends in a fault, and `z` is its last
token. -/
def RaisesAt (source : String) (z : Token) (fault : Fault) : Prop :=
  ∃ us vs rest ss n v m,
    tokenize source = us ++ (vs ++ [z]) ++ rest
      ∧ Statements us ss ∧ Statement (vs ++ [z]) n
      ∧ Node.evalAll ss .nil {} = (.ok v, m) ∧ (n.eval m).1 = .error fault

/-- A fault while running what parses is raised at some token. -/
theorem exists_raisesAt {source : String} {fault : Fault}
    (h : (Node.evalAll (Cursor.ofSource source).program.1 .nil {}).1 = .error fault) :
    ∃ z, RaisesAt source z fault := by
  obtain ⟨ts, c, hss, htakes, -⟩ := (Cursor.ofSource source).program_takes
  obtain ⟨ss, n, after, v, m, hprogram, hran, hfault⟩ := Node.evalAll_error h
  rw [hprogram] at hss
  obtain ⟨us, ws, rfl, hus, hws⟩ := Grammar.statements_append_inv hss
  cases hws with
  | @cons _ ws _ _ hs _ =>
      obtain ⟨vs, z, rfl, -⟩ := Cursor.last_of_statement hs
      refine ⟨z, us, vs, ws ++ tokensOf c.pending, ss, n, v, m, ?_, hus, hs, hran, hfault⟩
      have htokens : tokenize source = _ := htakes.tokens
      rw [htokens, ← List.append_assoc us, List.append_assoc]

-- ================================================================ sources

namespace Cursor

/-- Where a program fails to parse, so does its next statement, whatever is
on record. -/
theorem Stops.programStep {c c' : Cursor} {failure : ParseFailure} (h : c.Stops (some failure) c')
    (reported : List LexError) :
    ((Cursor.mk c.pending reported).programStep).1 = some (.error failure) := by
  have hbare : (Cursor.mk c.pending reported).bare = c.bare := bare_eq_of_tokens rfl
  have hfst := congrArg Prod.fst (programStep_bare ⟨c.pending, reported⟩)
  rw [hbare, programStep_bare] at hfst
  rw [← hfst]
  cases h with
  | failed hend hstatement =>
      unfold Cursor.programStep
      rw [statement_settle, hstatement]
      split
      · next hfront => exact absurd (fun t ht => by rw [hfront] at ht; cases ht) hend
      · next t hfront =>
          rw [if_neg fun ht => hend fun u hu => Option.some.inj (hfront.symm.trans hu) ▸ ht]

variable {source : String}

/-- A source that raises a fault makes a run halt there. -/
theorem halts_of_raisesAt {z : Token} {fault : Fault} (h : RaisesAt source z fault) :
    (Cursor.ofSource source).HaltsAt .nil {} z (.error (.runtime fault)) := by
  obtain ⟨us, vs, rest, ss, n, v, m, htokens, hss, hs, hran, hfault⟩ := h
  rw [List.append_assoc] at htokens
  obtain ⟨c₁, htakes, hrest⟩ := exists_takes (c := Cursor.ofSource source) htokens
  refine .through hss htakes hran (.refl _) fun reported m₁ halike => ?_
  obtain ⟨c₂, htakes', -⟩ := exists_takes (c := ⟨c₁.pending, reported⟩) hrest
  obtain ⟨hfst, -⟩ := (halike.trans (Machine.alike_tell Reporter.silent_echo m₁ c₂)).eval n
  exact halts_faulted v m₁ hs htakes' (hfst.trans hfault)

/-- A source whose statements run through up to one that does not parse makes
a run halt there. -/
theorem halts_of_rejected {fault : SyntaxFault} {z : Token} {v : Value} {m : Machine}
    (hstop : (Cursor.ofSource source).program.2.1 = some (.rejected fault (some z)))
    (hran : Node.evalAll (Cursor.ofSource source).program.1 .nil {} = (.ok v, m)) :
    (Cursor.ofSource source).HaltsAt .nil {} z (.error (.parse (.rejected fault (some z)))) := by
  obtain ⟨ts, c, hss, htakes, hstops⟩ := (Cursor.ofSource source).program_takes
  rw [hstop] at hstops
  exact .through hss htakes hran (.refl _) fun reported m₁ _ =>
    halts_rejected v m₁ (hstops.programStep reported)

/-- At the end of the text only errors are left to pass over. -/
theorem Stops.eq_settle {c c' : Cursor} (h : c.Stops none c') : c' = c.settle := by
  cases h with
  | atEnd _ => rfl

/-- A source that parses is its statements and then the end token, which is
looked at. -/
theorem program_finished (hstop : (Cursor.ofSource source).program.2.1 = none) :
    ∃ ts last c, tokenize source = ts ++ [last] ∧ last.kind = .eof
      ∧ Statements ts (Cursor.ofSource source).program.1 ∧ (Cursor.ofSource source).Takes ts c
      ∧ tokensOf c.pending = [last] ∧ (Cursor.ofSource source).program.2.2 = c.settle := by
  obtain ⟨ts, c, hss, htakes, hstops⟩ := (Cursor.ofSource source).program_takes
  rw [hstop] at hstops
  obtain ⟨last, hlast, hkind⟩ :=
    ((sourced_ofSource source).statements hss htakes).tokens_atEnd hstops.finished
  have htokens : tokenize source = ts ++ [last] := by
    rw [← hlast]
    exact htakes.tokens
  exact ⟨ts, last, c, htokens, hkind, hss, htakes, hlast, hstops.eq_settle⟩

/-- A source whose statements parse and run through makes a run halt at its
end. -/
theorem halts_of_finished {v : Value} {m : Machine}
    (hstop : (Cursor.ofSource source).program.2.1 = none)
    (hran : Node.evalAll (Cursor.ofSource source).program.1 .nil {} = (.ok v, m)) :
    ∃ ts last, tokenize source = ts ++ [last]
      ∧ (Cursor.ofSource source).HaltsAt .nil {} last (.ok v) := by
  obtain ⟨ts, last, c, htokens, hkind, hss, htakes, hlast, -⟩ := program_finished hstop
  refine ⟨ts, last, htokens, .through hss htakes hran (.refl _) fun reported m₁ _ => ?_⟩
  apply halts_atEnd v m₁ _ hkind
  rw [front?_settle, hlast]
  rfl

/-- Where a run of a source halts, it has told of the errors before that
place. -/
theorem HaltsAt.toldInRun {z : Token} {result : Except Failure Value}
    (h : (Cursor.ofSource source).HaltsAt .nil {} z result) :
    (Cursor.ofSource source).toldInRun .echo .nil {} = errorsBefore z (scan source) :=
  errorsBefore_of_told h.told

/-- A run that halts at a token has reported the errors before that token. -/
theorem HaltsAt.reports {z : Token} {result : Except Failure Value}
    (h : (Cursor.ofSource source).HaltsAt .nil {} z result) :
    (runSource source .echo {}).2.trace.reports = errorLines (errorsBefore z (scan source)) := by
  rw [← h.toldInRun]
  exact (Cursor.ofSource source).reports_run .nil {}

end Cursor

/-- The answer of a run that echoes is that of parsing first and running
then. -/
theorem answer_of_runSource (source : String) :
    (runSource source .echo {}).1
      = answer (Node.evalAll (Cursor.ofSource source).program.1 .nil {}).1
          (Cursor.ofSource source).program.2.1 :=
  (Cursor.run_alike Reporter.silent_echo (Cursor.ofSource source) .nil (.refl {})).1

/-- Running what parses ends in a fault exactly if a statement raises it. -/
theorem evalAll_program_error_iff {source : String} {fault : Fault} :
    (Node.evalAll (Cursor.ofSource source).program.1 .nil {}).1 = .error fault
      ↔ ∃ z, RaisesAt source z fault := by
  constructor
  · exact exists_raisesAt
  · rintro ⟨z, hraises⟩
    have hresult : (runSource source .echo {}).1 = _ := (Cursor.halts_of_raisesAt hraises).result
    rwa [answer_of_runSource, answer_eq_runtime_iff] at hresult

/-- A run that ends well has told of all lexical errors. -/
theorem toldInRun_of_ok {source : String} {v : Value} (h : (runSource source .echo {}).1 = .ok v) :
    (Cursor.ofSource source).toldInRun .echo .nil {} = errorsOf (scan source) := by
  obtain ⟨hran, hstop⟩ := answer_eq_ok_iff.1 ((answer_of_runSource source).symm.trans h)
  obtain ⟨ts, last, htokens, hhalts⟩ := Cursor.halts_of_finished hstop (Prod.ext hran rfl)
  rw [hhalts.toldInRun, errorsBefore_last htokens]

namespace Command

variable {source : String} (showTrace : Bool)

/-- A run that ends well is judged by the errors it has told of. -/
theorem runRun_ok {v : Value} (h : (runSource source .echo {}).1 = .ok v) :
    runRun source showTrace
      = (finish ((Cursor.ofSource source).toldInRun .echo .nil {}),
          (runSource source .echo {}).2.trace) := by
  unfold runSource Cursor.run at h
  unfold runRun runSource Cursor.run Cursor.toldInRun
  dsimp only
  rw [h]

/-- A run that fails is judged by its failure, which it shows last. -/
theorem runRun_error {failure : Failure} (h : (runSource source .echo {}).1 = .error failure) :
    runRun source showTrace
      = (failureExit failure,
          (runSource source .echo {}).2.trace ++ failureReport showTrace failure.message) := by
  unfold runSource Cursor.run at h
  unfold runRun runSource Cursor.run
  dsimp only
  rw [h]

/-- A run that ends well has reported all lexical errors. -/
theorem reports_runRun_ok {v : Value} (h : (runSource source .echo {}).1 = .ok v) :
    (runRun source showTrace).2.reports = errorLines (errorsOf (scan source)) := by
  rw [runRun_ok showTrace h, ← toldInRun_of_ok h]
  exact (Cursor.ofSource source).reports_run .nil {}

/-- A run that halts over a failure reports the errors before that place, and
the failure. -/
theorem reports_runRun_error {z : Token} {failure : Failure}
    (h : (Cursor.ofSource source).HaltsAt .nil {} z (.error failure)) :
    (runRun source showTrace).2.reports
      = errorLines (errorsBefore z (scan source))
          ++ .err (failure.message ++ "\n") :: traceLines showTrace := by
  rw [runRun_error showTrace h.result, Trace.reports_append, h.reports, reports_failureReport]
  rfl

end Command

-- ================================================================= texts

/-- A value has a text as a literal. -/
theorem Value.exists_literalText {v : Value} (h : v ≠ .absent) :
    ∃ text, v.literalText = .ok text := by
  cases v with
  | absent => exact absurd rfl h
  | nil | bool | string | real => exact ⟨_, rfl⟩

/-- An expression of the right form has a text. -/
theorem Node.IsExpression.exists_format {e : Node} (h : e.IsExpression) :
    ∃ text, e.format = .ok text := by
  induction h with
  | literal hv =>
      rw [Node.format]
      exact Value.exists_literalText hv
  | name x => exact ⟨_, by rw [Node.format]⟩
  | unary op _ ih =>
      obtain ⟨x, hx⟩ := ih
      exact ⟨_, by rw [Node.format, hx]; rfl⟩
  | binary op _ _ ihl ihr =>
      obtain ⟨x, hx⟩ := ihl
      obtain ⟨y, hy⟩ := ihr
      exact ⟨_, by rw [Node.format, hx, hy]; rfl⟩
  | assignment x _ ih =>
      obtain ⟨v, hv⟩ := ih
      exact ⟨_, by rw [Node.format, hv]; rfl⟩

-- ============================================================= the result

/-- `failure.ReportedIn trace source showTrace`: the failure objects to a
token of the source, and what the trace holds for the error stream are the
lexical errors before that token and then the failure, with the line of the
token. -/
def ParseFailure.ReportedIn (failure : ParseFailure) (trace : Trace) (source : String)
    (showTrace : Bool) : Prop :=
  ∃ fault z, failure = .rejected fault (some z) ∧ z ∈ tokenize source
    ∧ trace.reports = errorLines (errorsBefore z (scan source))
        ++ placedLine z.line fault.message :: traceLines showTrace

/-- Lines for the errors told, then those about the failure, are what a parse
failure has to report. -/
theorem ParseFailure.reportedIn_of_told {source : String} {fault : SyntaxFault} {z : Token}
    {errors : List LexError} {trace : Trace} {showTrace : Bool}
    (htold : (Cursor.ofSource source).Told z errors)
    (htrace : trace.reports = errorLines errors
      ++ failureReport showTrace (ParseFailure.rejected fault (some z)).message) :
    (ParseFailure.rejected fault (some z)).ReportedIn trace source showTrace := by
  rw [errorsBefore_of_told htold] at htrace
  exact ⟨fault, z, rfl, htold.mem, htrace⟩

namespace Command

variable {source : String} (showTrace : Bool) {failure : ParseFailure}

/-- If the expression does not parse, `parse` reports the errors told until
then, and why. -/
theorem reportedIn_runParse (h : (Cursor.ofSource source).expression.1 = .error failure) :
    failure.ReportedIn (runParse source showTrace).2 source showTrace := by
  obtain ⟨fault, z, rfl⟩ := (Cursor.sourced_ofSource source).expression_objects failure h
  apply ParseFailure.reportedIn_of_told ((Cursor.ofSource source).expression_points fault z h)
  unfold runParse
  rw [(Prod.ext h rfl : (Cursor.ofSource source).expression = (.error _, _))]
  simp [map_echo]

/-- An expression that parses is printed, and all that is reported are the
errors its parse has met. -/
theorem reports_runParse_ok {e : Node} {c : Cursor}
    (h : (Cursor.ofSource source).expression = (.ok e, c)) :
    (runParse source showTrace).2.reports = errorLines c.reported := by
  obtain ⟨text, htext⟩ :=
    (Cursor.isExpression_of_expression (congrArg Prod.fst h)).exists_format
  unfold runParse
  rw [h]
  dsimp only
  rw [htext, map_echo, Trace.reports_append, reports_errorLines]
  exact List.append_nil _

/-- `evaluate` reports the same. -/
theorem reportedIn_runEvaluate (h : (Cursor.ofSource source).expression.1 = .error failure) :
    failure.ReportedIn (runEvaluate source showTrace).2 source showTrace := by
  obtain ⟨fault, z, rfl⟩ := (Cursor.sourced_ofSource source).expression_objects failure h
  apply ParseFailure.reportedIn_of_told ((Cursor.ofSource source).expression_points fault z h)
  unfold runEvaluate evalSource
  rw [(Prod.ext h rfl : (Cursor.ofSource source).expression = (.error _, _))]
  simp [Machine.reports_tell, Failure.message]

/-- `tree` reports what its program tells until it fails. -/
theorem reportedIn_runTree (h : (Cursor.ofSource source).program.2.1 = some failure) :
    failure.ReportedIn (runTree source showTrace).2 source showTrace := by
  obtain ⟨fault, z, rfl⟩ := (Cursor.sourced_ofSource source).program_rejected h
  apply ParseFailure.reportedIn_of_told (Cursor.program_told h)
  unfold runTree
  rw [(Prod.ext rfl (Prod.ext h rfl) : (Cursor.ofSource source).program = (_, some _, _))]
  simp [map_echo]

/-- `run` reports what it tells until the parse fails, if no statement faults
before. -/
theorem reportedIn_runRun (h : (runSource source .echo {}).1 = .error (.parse failure)) :
    failure.ReportedIn (runRun source showTrace).2 source showTrace := by
  obtain ⟨⟨v, hran⟩, hstop⟩ := answer_eq_parse_iff.1 ((answer_of_runSource source).symm.trans h)
  obtain ⟨fault, z, rfl⟩ := (Cursor.sourced_ofSource source).program_rejected hstop
  have hhalts := Cursor.halts_of_rejected hstop (Prod.ext hran rfl)
  exact ⟨fault, z, rfl, hhalts.told.mem, reports_runRun_error showTrace hhalts⟩

end Command

/-- The lexical errors that a command reports, in order and each once, as the
lines they are shown in. A run that ends well reports all of them. A run in
which a statement faults reports those before the last token of that
statement. A run, a parse, an evaluation or an outline that is rejected
reports those before the token it is rejected at. And an expression that
parses has met, and is reported with, those before the token it stops at. -/
theorem lexical_reports_exact (source : String) (showTrace : Bool) :
    let ran := (runSource source .echo {}).1
    let reports := (Command.runRun source showTrace).2.reports
    (∀ v, ran = .ok v → reports = errorLines (errorsOf (scan source)))
      ∧ (∀ fault, ran = .error (.runtime fault) ↔ ∃ z, RaisesAt source z fault)
      ∧ (∀ z fault, RaisesAt source z fault →
          reports = errorLines (errorsBefore z (scan source))
            ++ .err (fault.message ++ "\n") :: traceLines showTrace)
      ∧ (∀ failure, ran = .error (.parse failure) →
          failure.ReportedIn (Command.runRun source showTrace).2 source showTrace)
      ∧ (∀ failure, (Cursor.ofSource source).expression.1 = .error failure →
          failure.ReportedIn (Command.runParse source showTrace).2 source showTrace
            ∧ failure.ReportedIn (Command.runEvaluate source showTrace).2 source showTrace)
      ∧ (∀ failure, (Cursor.ofSource source).program.2.1 = some failure →
          failure.ReportedIn (Command.runTree source showTrace).2 source showTrace)
      ∧ (∀ e c, (Cursor.ofSource source).expression = (.ok e, c) →
          ∃ z, z.kind.endsExpression = true ∧ z ∈ tokenize source ∧ (c.look).1 = some z
            ∧ c.reported = errorsBefore z (scan source)
            ∧ (Command.runParse source showTrace).2.reports
                = errorLines (errorsBefore z (scan source))) := by
  refine ⟨?_, ?_, ?_, ?_, ?_, ?_, ?_⟩
  · intro v hok
    exact Command.reports_runRun_ok showTrace hok
  · intro fault
    rw [answer_of_runSource, answer_eq_runtime_iff, evalAll_program_error_iff]
  · intro z fault hraises
    exact Command.reports_runRun_error showTrace (Cursor.halts_of_raisesAt hraises)
  · intro failure h
    exact Command.reportedIn_runRun showTrace h
  · intro failure h
    exact ⟨Command.reportedIn_runParse showTrace h, Command.reportedIn_runEvaluate showTrace h⟩
  · intro failure h
    exact Command.reportedIn_runTree showTrace h
  · intro e c h
    -- the reader has come to the token that ends the expression, and no further
    obtain ⟨z, hends, hlook, htold⟩ := Cursor.expression_told h
    have herrors := errorsBefore_of_told htold
    refine ⟨z, hends, htold.mem, hlook, herrors, ?_⟩
    rw [Command.reports_runParse_ok showTrace h, herrors]

/-- Sources with a character at either end that starts no token. The first
runs through, and both characters are reported. In the second a statement
faults, the third is rejected, and the expression of the fourth stops at its
semicolon, all before the reader has come to the end. -/
theorem lexical_reports_of_sources :
    let fine := "@ print 1; #"
    let faulting := "@ print 1;\nprint x; #"
    let rejected := "@ a\nb; #"
    let stopping := "@ 1; #"
    let first : Effect := .err "[line 1] Error: Unexpected character: @\n"
    let second : Effect := .err "[line 1] Error: Unexpected character: #\n"
    let objection : Effect :=
      .err "[line 2] Error: Unexpected token 'b' where an operator was expected\n"
    ((Command.runRun fine false).2.reports = [first, second]
        ∧ errorLines (errorsOf (scan fine)) = [first, second])
      ∧ ((Command.runRun faulting false).2.reports = [first, .err "Variable x is not defined\n"]
        ∧ ∃ z, RaisesAt faulting z (.undefined "x")
            ∧ errorLines (errorsBefore z (scan faulting)) = [first])
      ∧ ((∀ c ∈ [Command.parse, .evaluate, .run, .tree],
          (c.execute rejected false).2.reports = [first, objection])
        ∧ ∃ z ∈ tokenize rejected, errorLines (errorsBefore z (scan rejected)) = [first])
      ∧ (Command.runParse stopping false).2.reports = [first]
      ∧ ∃ z ∈ tokenize stopping, z.kind.endsExpression = true
            ∧ errorLines (errorsBefore z (scan stopping)) = [first] := by
  intro fine faulting rejected stopping first second objection
  have hfine : (Command.runRun fine false).2.reports = [first, second] := by decide +kernel
  have hfaulting : (Command.runRun faulting false).2.reports
      = [first, .err "Variable x is not defined\n"] := by decide +kernel
  have hrejected : ∀ c ∈ [Command.parse, .evaluate, .run, .tree],
      (c.execute rejected false).2.reports = [first, objection] := by decide +kernel
  have hstopping : (Command.runParse stopping false).2.reports = [first] := by decide +kernel
  refine ⟨⟨hfine, ?_⟩, ⟨hfaulting, ?_⟩, ⟨hrejected, ?_⟩, hstopping, ?_⟩
  · have hok : (runSource fine .echo {}).1 = .ok .nil := by decide +kernel
    rw [← (lexical_reports_exact fine false).1 _ hok]
    exact hfine
  · have hfault : (runSource faulting .echo {}).1 = .error (.runtime (.undefined "x")) := by
      decide +kernel
    obtain ⟨-, hraises, hreports, -⟩ := lexical_reports_exact faulting false
    obtain ⟨z, hz⟩ := (hraises _).1 hfault
    exact ⟨z, hz, List.append_cancel_right ((hreports _ _ hz).symm.trans hfaulting)⟩
  · have hparse : (Cursor.ofSource rejected).expression.1.isOk = false := by decide +kernel
    rcases hfailure : (Cursor.ofSource rejected).expression.1 with failure | e
    · obtain ⟨-, -, -, -, hexpression, -⟩ := lexical_reports_exact rejected false
      obtain ⟨fault, z, rfl, hmem, hreports⟩ := (hexpression _ hfailure).1
      have h : _ ++ [placedLine z.line fault.message] = [first] ++ [objection] :=
        hreports.symm.trans (hrejected .parse (by simp))
      exact ⟨z, hmem, (List.append_inj' h rfl).1⟩
    · rw [hfailure] at hparse
      cases hparse
  · have hparse : (Cursor.ofSource stopping).expression.1.isOk = true := by decide +kernel
    rcases hok : (Cursor.ofSource stopping).expression with ⟨failure | e, c⟩
    · rw [hok] at hparse
      cases hparse
    · obtain ⟨-, -, -, -, -, -, hmet⟩ := lexical_reports_exact stopping false
      obtain ⟨z, hends, hmem, -, -, hreports⟩ := hmet e c hok
      exact ⟨z, hmem, hends, hreports.symm.trans hstopping⟩

end Lox

/-
How the exit codes of the commands agree.

Listing the tokens fails over a lexical error, and nothing else. An outline
fails over a lexical error or a syntax error: a source that parses has been
scanned to its end, so every lexical error is on record
(`reported_of_finished`), and the trees that the grammar derives all have an
outline (`IsStatement.exists_outline`). A run fails like an outline, unless
a statement faults first; that comes before every lexical error, and before
a syntax error further on.

A run that ends well is judged by the lexical errors it has told of. It has
come to the end of the source by then, so those are all of them
(`toldInRun_of_ok`).
-/
import Lox.Proofs.Diagnostics
import Lox.Proofs.ErrorSet

namespace Lox

-- =============================================================== outlines

/-- Every value has an outline. -/
theorem Value.exists_outline {v : Value} (h : v ≠ .absent) : ∃ o, v.outline = .ok o := by
  cases v with
  | absent => exact absurd rfl h
  | nil | bool | string | real => exact ⟨_, rfl⟩

namespace Node

/-- A branch over something that has an outline has one. -/
theorem exists_branch {r : Except Malformed Outline} (make : Outline → Outline)
    (h : ∃ o, r = .ok o) : ∃ o, (do let x ← r; return make x) = .ok o := by
  obtain ⟨o, rfl⟩ := h
  exact ⟨make o, rfl⟩

/-- Every expression has an outline. -/
theorem IsExpression.exists_outline {e : Node} (h : e.IsExpression) : ∃ o, e.outline = .ok o := by
  induction h with
  | literal hv =>
      rw [outline]
      exact exists_branch _ (Value.exists_outline hv)
  | name x => exact ⟨_, rfl⟩
  | unary op _ ih =>
      obtain ⟨o, ho⟩ := ih
      rw [outline, ho]
      by_cases hop : Operator.unary op = .unary .group
      · exact ⟨_, if_pos hop⟩
      · exact ⟨_, if_neg hop⟩
  | binary op _ _ ihl ihr =>
      obtain ⟨l, hl⟩ := ihl
      rw [outline, hl]
      exact exists_branch _ ihr
  | assignment x _ ih =>
      rw [outline]
      exact exists_branch _ ih

/-- Statements that have outlines have one as a row. -/
theorem exists_outlineAll {ss : List Node} (h : ∀ s ∈ ss, ∃ o, s.outline = .ok o) :
    ∃ os, outlineAll ss = .ok os := by
  induction ss with
  | nil => exact ⟨[], rfl⟩
  | cons s ss ih =>
      rw [List.forall_mem_cons] at h
      obtain ⟨⟨o, ho⟩, hss⟩ := h
      obtain ⟨os, hos⟩ := ih hss
      exact ⟨o :: os, by rw [outlineAll, ho, hos]; rfl⟩

/-- Every statement has an outline. -/
theorem IsStatement.exists_outline {s : Node} (h : s.IsStatement) : ∃ o, s.outline = .ok o := by
  induction h with
  | exprStmt he =>
      rw [outline]
      exact exists_branch _ he.exists_outline
  | printStmt he =>
      rw [outline]
      exact exists_branch _ he.exists_outline
  | declare x => exact ⟨_, rfl⟩
  | define x he =>
      rw [outline]
      exact exists_branch _ he.exists_outline
  | assignStmt x he =>
      rw [outline]
      exact exists_branch _ he.exists_outline
  | block _ ih =>
      obtain ⟨os, hos⟩ := exists_outlineAll ih
      exact ⟨_, by rw [outline, hos]; rfl⟩

end Node

/-- What parses has an outline. -/
theorem Cursor.exists_programOutline (c : Cursor) : ∃ o, programOutline c.program.1 = .ok o := by
  obtain ⟨ts, c', hss, -, -⟩ := c.program_takes
  have hform := Grammar.isStatement_of_statements hss
  obtain ⟨os, hos⟩ := Node.exists_outlineAll fun s hs => (hform s hs).exists_outline
  exact ⟨.branch "program" os, by rw [programOutline, hos]; rfl⟩

-- ============================================================= exit codes

namespace Command

variable (source : String) (showTrace : Bool)

/-- A source that parses has all its lexical errors on record. -/
theorem reported_of_finished {source : String}
    (h : (Cursor.ofSource source).program.2.1 = none) :
    (Cursor.ofSource source).program.2.2.reported = errorsOf (scan source) := by
  obtain ⟨ts, last, c, htokens, -, -, htakes, hlast, hc⟩ := Cursor.program_finished h
  have hfront : c.settle.front? = some last := by
    rw [Cursor.front?_settle, hlast]
    rfl
  rw [← errorsBefore_last htokens, hc]
  exact errorsBefore_of_told (htakes.reaches.told (Cursor.told_of_front hfront))

/-- An outline fails over lexical errors if the source parses, and over the
syntax error otherwise. -/
theorem exit_runTree :
    (runTree source showTrace).1 = match (Cursor.ofSource source).program.2.1 with
      | none => finish (errorsOf (scan source))
      | some _ => .dataError := by
  obtain ⟨o, ho⟩ := (Cursor.ofSource source).exists_programOutline
  unfold runTree
  cases hstop : (Cursor.ofSource source).program.2.1 with
  | none =>
      rw [(Prod.ext rfl (Prod.ext hstop rfl) : (Cursor.ofSource source).program = (_, none, _))]
      dsimp only
      rw [ho, reported_of_finished hstop]
  | some failure =>
      rw [(Prod.ext rfl (Prod.ext hstop rfl) : (Cursor.ofSource source).program = (_, some _, _))]

/-- A run fails over the first fault of its statements if there is one, and
like an outline otherwise. -/
theorem exit_runRun :
    (runRun source showTrace).1
      = match (Node.evalAll (Cursor.ofSource source).program.1 .nil {}).1 with
        | .error _ => .runtimeError
        | .ok _ => (runTree source showTrace).1 := by
  have hanswer := answer_of_runSource source
  rw [exit_runTree]
  rcases hrun : (runSource source .echo {}).1 with (failure | fault) | v
  · obtain ⟨⟨v, hran⟩, hstop⟩ := answer_eq_parse_iff.1 (hanswer.symm.trans hrun)
    rw [runRun_error showTrace hrun, hran, hstop]
    rfl
  · have hran := answer_eq_runtime_iff.1 (hanswer.symm.trans hrun)
    rw [runRun_error showTrace hrun, hran]
    rfl
  · obtain ⟨hran, hstop⟩ := answer_eq_ok_iff.1 (hanswer.symm.trans hrun)
    rw [runRun_ok showTrace hrun, toldInRun_of_ok hrun, hran, hstop]

/-- The code of `tokenize` says whether there are lexical errors. -/
theorem code_runTokenize :
    (runTokenize source).1.code = if errorsOf (scan source) = [] then 0 else 65 := by
  show (finish (errorsOf (scan source))).code = _
  cases errorsOf (scan source) <;> rfl

/-- The code of `tree` says whether there are any, or a statement does not
parse. -/
theorem code_runTree :
    (runTree source showTrace).1.code
      = if (runTokenize source).1.code = 0 ∧ (Cursor.ofSource source).program.2.1 = none
        then 0 else 65 := by
  rw [exit_runTree, code_runTokenize]
  cases (Cursor.ofSource source).program.2.1 with
  | none => cases errorsOf (scan source) <;> rfl
  | some failure => simp [Exit.code]

/-- A fault among the statements that parse gives `run` its code. -/
theorem code_runRun_error {fault : Fault}
    (h : (Node.evalAll (Cursor.ofSource source).program.1 .nil {}).1 = .error fault) :
    (runRun source showTrace).1.code = 70 := by
  rw [exit_runRun, h]
  rfl

/-- Without such a fault, `run` ends with the code of `tree`. -/
theorem code_runRun_ok {v : Value}
    (h : (Node.evalAll (Cursor.ofSource source).program.1 .nil {}).1 = .ok v) :
    (runRun source showTrace).1.code = (runTree source showTrace).1.code := by
  rw [exit_runRun, h]

/-- The code of a run that ends well is the one that its reports call for. -/
theorem code_runRun_reports {v : Value} (h : (runSource source .echo {}).1 = .ok v) :
    (runRun source showTrace).1.code
      = if (runRun source showTrace).2.reports = [] then 0 else 65 := by
  obtain ⟨hran, hstop⟩ := answer_eq_ok_iff.1 ((answer_of_runSource source).symm.trans h)
  rw [code_runRun_ok source showTrace hran, code_runTree, code_runTokenize,
    reports_runRun_ok showTrace h, hstop]
  cases errorsOf (scan source) <;> rfl

end Command

/-- A statement of a source raises ordinary faults only. -/
theorem RaisesAt.ordinary {source : String} {z : Token} {fault : Fault}
    (h : RaisesAt source z fault) : fault.Ordinary := by
  obtain ⟨us, vs, rest, ss, n, v, m, -, -, hs, -, hfault⟩ := h
  have hsound := (Grammar.isStatement_of_statement hs).eval_sound m
  unfold Outcome.Sound at hsound
  rwa [hfault] at hsound

-- ============================================================= the result

/-- The exit codes of the commands, from each other. The tokens of a source
are listed with code 0 exactly if it has no lexical error. It has an outline
with code 0 exactly if, besides, it parses. A run has code 70 exactly if a
statement faults that parses along with those before it, which is then an
ordinary fault; and it has code 0 exactly if there is an outline and the
statements run through. All other codes are 65. The code of a run that does
not fail is the one its own reports call for. -/
theorem exit_codes_agree (source : String) (showTrace : Bool) :
    let tokens := (Command.runTokenize source).1.code
    let outline := (Command.runTree source showTrace).1.code
    let run := (Command.runRun source showTrace).1.code
    let parsed := (Cursor.ofSource source).program
    (tokens = if errorsOf (scan source) = [] then 0 else 65)
      ∧ (outline = if tokens = 0 ∧ parsed.2.1 = none then 0 else 65)
      ∧ (run = 70 ↔ ∃ z fault, RaisesAt source z fault ∧ fault.Ordinary)
      ∧ (run = 0 ↔ outline = 0 ∧ ∃ v, (Node.evalAll parsed.1 .nil {}).1 = .ok v)
      ∧ (run ≠ 70 → run ≠ 0 → run = 65)
      ∧ (∀ v, (runSource source .echo {}).1 = .ok v →
          run = if (Command.runRun source showTrace).2.reports = [] then 0 else 65) := by
  have htree := Command.code_runTree source showTrace
  -- a run has the code of its fault, or else that of the outline, 0 or 65
  cases hran : (Node.evalAll (Cursor.ofSource source).program.1 .nil {}).1 with
  | error fault =>
      have hcode := Command.code_runRun_error source showTrace hran
      obtain ⟨z, hraises⟩ := evalAll_program_error_iff.1 hran
      refine ⟨Command.code_runTokenize source, htree, ?_, ?_, ?_,
        fun v hv => Command.code_runRun_reports source showTrace hv⟩
      · exact ⟨fun _ => ⟨z, fault, hraises, hraises.ordinary⟩, fun _ => hcode⟩
      · rw [hcode, hran]
        simp
      · exact fun h => absurd hcode h
  | ok v =>
      have hcode := Command.code_runRun_ok source showTrace hran
      have hcases : (Command.runTree source showTrace).1.code = 0
          ∨ (Command.runTree source showTrace).1.code = 65 := by
        rw [htree]
        split
        · exact .inl rfl
        · exact .inr rfl
      refine ⟨Command.code_runTokenize source, htree, ?_, ?_, ?_,
        fun v hv => Command.code_runRun_reports source showTrace hv⟩
      · constructor
        · intro h
          omega
        · rintro ⟨z, fault, hraises, -⟩
          rw [evalAll_program_error_iff.2 ⟨z, hraises⟩] at hran
          cases hran
      · rw [hcode, hran]
        simp
      · omega

/-- A source that runs through; one that does so before a character that
starts no token; and one that faults before the token it is rejected at. -/
theorem exit_codes_of_sources :
    let fine := "print 1;"
    let marred := "print 1; @"
    let faulting := "print x; 1 2"
    ((Command.runRun fine false).1.code = 0
        ∧ ∃ v, (Node.evalAll (Cursor.ofSource fine).program.1 .nil {}).1 = .ok v)
      ∧ ((Command.runRun marred false).1.code = 65 ∧ (Command.runTree marred false).1.code = 65
        ∧ (Command.runRun marred false).2.reports ≠ [])
      ∧ ((Command.runRun faulting false).1.code = 70
        ∧ (Command.runTree faulting false).1.code = 65
        ∧ ∃ z fault, RaisesAt faulting z fault ∧ fault.Ordinary) := by
  intro fine marred faulting
  have hfine : (Command.runRun fine false).1.code = 0 := by decide +kernel
  have hmarred : (Command.runRun marred false).1.code = 65 := by decide +kernel
  have hfaulting : (Command.runRun faulting false).1.code = 70 := by decide +kernel
  refine ⟨⟨hfine, ?_⟩, ⟨hmarred, by decide +kernel, fun hnone => ?_⟩,
    ⟨hfaulting, by decide +kernel, ?_⟩⟩
  · obtain ⟨-, -, -, hzero, -⟩ := exit_codes_agree fine false
    exact (hzero.1 hfine).2
  · have hok : (runSource marred .echo {}).1 = .ok .nil := by decide +kernel
    obtain ⟨-, -, -, -, -, hreports⟩ := exit_codes_agree marred false
    have hcode := hreports _ hok
    rw [if_pos hnone, hmarred] at hcode
    cases hcode
  · obtain ⟨-, -, hseventy, -⟩ := exit_codes_agree faulting false
    exact hseventy.1 hfaulting

end Lox

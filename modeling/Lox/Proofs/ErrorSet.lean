/-
The errors that a source text can lead to.

Parsing a text fails only by an objection to one of its tokens: the end
token stops every parser before the tokens run out, and the numbers of a
scan are numbers (`Sourced`). Running it can also end in a fault, but only
over values that an operator does not accept or over a variable without a
value, since the statements of a program are of the right form. All other
failures of the library concern tokens or trees that no text gives. So
whatever a run of a text ends with, it can be reported or shown (`Reported`).

The guards that are never triggered have messages of their own. That these
do not show up is said of the messages as texts: no message of an error that
can arise starts like one of them. Most messages quote a lexeme or a value,
which may be any text, so this rests on how a message begins (`Apart`).
-/
import Lox.Prompt.Session
import Lox.Proofs.Objections
import Lox.Proofs.Positions
import Lox.Proofs.Run
import Lox.Proofs.WellTyped

namespace Lox

-- ============================================================== messages

/-- How the messages start that no source text leads to. -/
def guardOpenings : List String :=
  ["Unexpected end of input", "Malformed expression: operands left over", "Unknown operator",
    "Unsupported unary op", "Unsupported binary op"]

/-- A message that does not start like one of a guard. -/
def IsRegular (message : String) : Prop :=
  ∀ opening ∈ guardOpenings, ¬ opening.toList <+: message.toList

/-- A text after which it is settled that a message is none of a guard. -/
def Apart (head : String) : Prop :=
  ∀ opening ∈ guardOpenings, ¬ opening.toList <+: head.toList ∧ ¬ head.toList <+: opening.toList

instance (message : String) : Decidable (IsRegular message) :=
  inferInstanceAs (Decidable (∀ opening ∈ guardOpenings, ¬ _))

instance (head : String) : Decidable (Apart head) :=
  inferInstanceAs (Decidable (∀ opening ∈ guardOpenings, _ ∧ _))

/-- A message that begins with such a text is none of a guard. -/
theorem Apart.isRegular {head message : String} (h : Apart head)
    (hhead : head.toList <+: message.toList) : IsRegular message := by
  intro opening hopening hmessage
  obtain ⟨hout, hin⟩ := h opening hopening
  rcases List.prefix_or_prefix_of_prefix hmessage hhead with hprefix | hprefix
  · exact hout hprefix
  · exact hin hprefix

/-- What a text starts with, a longer one does. -/
theorem begins_append {head text : String} (h : head.toList <+: text.toList) (rest : String) :
    head.toList <+: (text ++ rest).toList := by
  rw [String.toList_append]
  exact h.trans (List.prefix_append _ _)

/-- The message of a fault that is not a guard's does not look like one. -/
theorem SyntaxFault.isRegular_message {fault : SyntaxFault} (h : fault.isGuard = false) :
    IsRegular fault.message := by
  have htoken : Apart "Unexpected token '" := by decide +kernel
  have hexpected : Apart "Expected " := by decide +kernel
  cases fault with
  | endInExpression | endInStatement | operandsLeft | unknownOperator => cases h
  | operandExpected lexeme | operatorExpected lexeme =>
      exact htoken.isRegular (begins_append (begins_append (List.prefix_refl _) lexeme) _)
  | semicolonAfterValue | variableName | semicolonAfterDeclaration | semicolonAfterExpression
  | braceAfterBlock => exact hexpected.isRegular (by decide +kernel)
  | unmatchedParen | unclosedParen | missingOperand | badTarget => decide +kernel

/-- An objection to values says what cannot be done with them. -/
theorem TypeFault.message_begins {fault : TypeFault} (h : fault.isMisplaced = false) :
    "Cannot ".toList <+: fault.message.toList := by
  cases fault with
  | unsupportedUnary | unsupportedBinary => cases h
  | notNumber | notBoolean =>
      exact begins_append (begins_append (by decide +kernel) _) _
  | cannotAdd | cannotSubtract | cannotMultiply | cannotDivide =>
      exact begins_append (begins_append (begins_append (by decide +kernel) _) _) _
  | cannotCompare | cannotConnect =>
      exact begins_append (begins_append (begins_append (begins_append (begins_append
        (by decide +kernel) _) _) _) _) _

theorem Fault.Ordinary.isRegular_message {fault : Fault} (h : fault.Ordinary) :
    IsRegular fault.message := by
  cases h with
  | illTyped hfault =>
      have hcannot : Apart "Cannot " := by decide +kernel
      exact hcannot.isRegular (TypeFault.message_begins hfault)
  | undefined x =>
      have hvariable : Apart "Variable " := by decide +kernel
      exact hvariable.isRegular (begins_append (begins_append (List.prefix_refl _) x) _)

-- ================================================================ parsing

/-- An objection to one of the tokens of a source, and with the message of no
guard. -/
def ParseFailure.IsObjection (failure : ParseFailure) (source : String) : Prop :=
  ∃ fault t, failure = .rejected fault (some t) ∧ t ∈ tokenize source ∧ IsRegular fault.message

namespace Cursor

/-- An expression that does not parse is objected to at one of its tokens. -/
theorem expression_objection {source : String} {failure : ParseFailure}
    (h : (Cursor.ofSource source).expression.1 = .error failure) :
    failure.IsObjection source := by
  obtain ⟨fault, t, rfl⟩ := (sourced_ofSource source).expression_objects failure h
  have hregular := SyntaxFault.isGuard_of_isInner
    ((Cursor.ofSource source).expression_regular fault t h)
  exact ⟨fault, t, rfl, expression_rejected_mem h, SyntaxFault.isRegular_message hregular⟩

theorem program_objection {source : String} {failure : ParseFailure}
    (h : (Cursor.ofSource source).program.2.1 = some failure) : failure.IsObjection source := by
  obtain ⟨fault, t, rfl⟩ := (sourced_ofSource source).program_rejected h
  have hregular := (Cursor.ofSource source).program_regular h
  exact ⟨fault, t, rfl, program_rejected_mem h, SyntaxFault.isRegular_message hregular⟩

/-- The statements of a program run to a value, or into an ordinary fault. -/
theorem sound_evalAll_program (c : Cursor) (m : Machine) :
    (Node.evalAll c.program.1 .nil m).Sound := by
  obtain ⟨ts, c', hss, -, -⟩ := c.program_takes
  have hform := Grammar.isStatement_of_statements hss
  exact Outcome.sound_evalAll (fun s hs m => (hform s hs).eval_sound m) (by simp) m

end Cursor

-- =============================================================== reports

/-- A run that ends with a value that is there, or a failure that is
reported. -/
def Reported (r : Except Failure Value) : Prop :=
  match r with
  | .ok v => v ≠ .absent
  | .error failure => failure.isReported = true

/-- Ordinary faults are reported. -/
theorem Fault.Ordinary.isReported {fault : Fault} (h : fault.Ordinary) :
    (Failure.runtime fault).isReported = true := by
  cases h <;> rfl

/-- The tree of an expression that parses is of the right form. -/
theorem Cursor.isExpression_of_expression {c : Cursor} {e : Node}
    (h : c.expression.1 = .ok e) : e.IsExpression := by
  obtain ⟨before, z, after, -, -, hderives, -⟩ :=
    expression_eq_ok_iff.1 (Prod.ext h rfl : c.expression = (.ok e, c.expression.2))
  exact Grammar.isExpression_of_derives hderives

/-- Every failure of an evaluation is reported. -/
theorem reported_evalSource (source : String) (report : Reporter) (m : Machine) :
    Reported (evalSource source report m).1 := by
  have hobjects := (Cursor.sourced_ofSource source).expression_objects
  have hform := @Cursor.isExpression_of_expression (Cursor.ofSource source)
  unfold evalSource
  rcases hparsed : (Cursor.ofSource source).expression with ⟨failure | e, c⟩
  · obtain ⟨fault, t, rfl⟩ := hobjects failure (by rw [hparsed])
    rfl
  · have hsound := (hform (by rw [hparsed])).eval_sound (m.tell report c)
    dsimp only
    rcases heval : e.eval (m.tell report c) with ⟨fault | v, m'⟩
    · rw [heval] at hsound
      exact Fault.Ordinary.isReported hsound
    · rw [heval] at hsound
      exact hsound

theorem reported_runSource {report : Reporter} (h : report.Silent) (source : String)
    (m : Machine) : Reported (runSource source report m).1 := by
  have hrun : (runSource source report m).1 = ((Cursor.ofSource source).runParsed .nil m).1 :=
    (Cursor.run_alike h (Cursor.ofSource source) .nil (.refl m)).1
  have hsound := (Cursor.ofSource source).sound_evalAll_program m
  rw [hrun, Cursor.runParsed]
  generalize Node.evalAll (Cursor.ofSource source).program.1 .nil m = ran at hsound ⊢
  rcases ran with ⟨fault | v, m'⟩
  · exact Fault.Ordinary.isReported hsound
  · cases hstop : (Cursor.ofSource source).program.2.1 with
    | none => exact hsound
    | some failure =>
        obtain ⟨fault, t, rfl⟩ := (Cursor.sourced_ofSource source).program_rejected hstop
        rfl

-- ============================================================ the result

/-- The errors of a source text form a closed set. Parsing it as an
expression or as a program succeeds or objects to one of its tokens. Running
it, on any machine, gives a value, objects to one of its tokens, or ends in
a type fault or an undefined variable. No message is one of a guard. -/
theorem source_errors_closed (source : String) (m : Machine) :
    ((∃ e, (Cursor.ofSource source).expression.1 = .ok e)
        ∨ ∃ failure, (Cursor.ofSource source).expression.1 = .error failure
            ∧ failure.IsObjection source)
      ∧ ((Cursor.ofSource source).program.2.1 = none
        ∨ ∃ failure, (Cursor.ofSource source).program.2.1 = some failure
            ∧ failure.IsObjection source)
      ∧ ((∃ v, (runSource source .warn m).1 = .ok v ∧ v ≠ .absent)
        ∨ (∃ failure, (runSource source .warn m).1 = .error (.parse failure)
            ∧ failure.IsObjection source)
        ∨ ∃ fault, (runSource source .warn m).1 = .error (.runtime fault)
            ∧ ((∃ typeFault, fault = .illTyped typeFault) ∨ ∃ x, fault = .undefined x)
            ∧ IsRegular fault.message) := by
  refine ⟨?_, ?_, ?_⟩
  · cases h : (Cursor.ofSource source).expression.1 with
    | ok e => exact .inl ⟨e, rfl⟩
    | error failure => exact .inr ⟨failure, rfl, Cursor.expression_objection h⟩
  · cases h : (Cursor.ofSource source).program.2.1 with
    | none => exact .inl rfl
    | some failure => exact .inr ⟨failure, rfl, Cursor.program_objection h⟩
  · have hrun : (runSource source .warn m).1 = ((Cursor.ofSource source).runParsed .nil m).1 :=
      (Cursor.run_alike Reporter.silent_warn (Cursor.ofSource source) .nil (.refl m)).1
    have hsound := (Cursor.ofSource source).sound_evalAll_program m
    unfold Cursor.runParsed at hrun
    -- the run answers with the fault of its statements, and else with the parser's verdict
    generalize Node.evalAll (Cursor.ofSource source).program.1 .nil m = ran at hrun hsound
    obtain ⟨fault | v, m'⟩ := ran
    · refine .inr (.inr ⟨fault, hrun, ?_, Fault.Ordinary.isRegular_message hsound⟩)
      cases hsound with
      | @illTyped typeFault _ => exact .inl ⟨typeFault, rfl⟩
      | undefined x => exact .inr ⟨x, rfl⟩
    · cases h : (Cursor.ofSource source).program.2.1 with
      | none =>
          rw [h] at hrun
          exact .inl ⟨v, hrun, hsound⟩
      | some failure =>
          rw [h] at hrun
          exact .inr (.inl ⟨failure, hrun, Cursor.program_objection h⟩)

end Lox

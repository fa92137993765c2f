/-
Running program text.

A program is run while it is read: each statement is evaluated as soon as it
has been parsed, and only then is the next one looked at. So the effects of
complete statements come before a syntax error further on, and a lexical
error is reported when parsing reaches the token after it.
-/
import Lox.Eval
import Lox.Statement

namespace Lox

/-- Why running a source can fail. -/
inductive Failure where
  | parse (failure : ParseFailure)
  | runtime (fault : Fault)
deriving DecidableEq, Repr

def Failure.message : Failure → String
  | .parse failure => failure.message
  | .runtime fault => fault.message

/-- The outcome of running text. -/
abbrev RunOutcome := Except Failure Value × Machine

/-- An evaluation as the outcome of a run. -/
def Outcome.asRun (r : Outcome Value) : RunOutcome :=
  match r with
  | (.ok v, m) => (.ok v, m)
  | (.error fault, m) => (.error (.runtime fault), m)

/-- Tell about the lexical errors that a cursor has on record. -/
def Machine.tell (m : Machine) (report : Reporter) (c : Cursor) : Machine :=
  m.emitAll (c.reported.map report)

/-- Run the statements from a cursor on, with the lexical errors told of so
far at hand. The value is that of the last statement, or the given one if
there is none; with it come all errors told of by the end. -/
def Cursor.runTelling (c : Cursor) (report : Reporter) (last : Value) (m : Machine)
    (told : List LexError) : RunOutcome × List LexError :=
  let told := told ++ (c.programStep).2.reported
  match _h : (c.programStep).1 with
  | none => ((.ok last, m.tell report (c.programStep).2), told)
  | some (.error failure) => ((.error (.parse failure), m.tell report (c.programStep).2), told)
  | some (.ok node) =>
      match node.eval (m.tell report (c.programStep).2) with
      | (.error fault, m) => ((.error (.runtime fault), m), told)
      | (.ok v, m) => Cursor.runTelling { (c.programStep).2 with reported := [] } report v m told
termination_by c.pending.length
decreasing_by exact length_programStep_lt _h

/-- The outcome of running from a cursor. -/
def Cursor.run (c : Cursor) (report : Reporter) (last : Value) (m : Machine) : RunOutcome :=
  (c.runTelling report last m []).1

/-- The lexical errors told of while running from a cursor. -/
def Cursor.toldInRun (c : Cursor) (report : Reporter) (last : Value) (m : Machine) :
    List LexError :=
  (c.runTelling report last m []).2

/-- Run a program text. -/
def runSource (source : String) (report : Reporter) (m : Machine) : RunOutcome :=
  (Cursor.ofSource source).run report .nil m

/-- Parse the expression at the start of a text and evaluate it. -/
def evalSource (source : String) (report : Reporter) (m : Machine) : RunOutcome :=
  let (r, c) := (Cursor.ofSource source).expression
  let m := m.tell report c
  match r with
  | .error failure => (.error (.parse failure), m)
  | .ok node => (node.eval m).asRun

end Lox

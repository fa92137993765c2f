/-
The session behind the prompt: variables that live from entry to entry.

An entry is a command, or program text that is run in the session's scopes.
An entry that is rejected by the grammar, or whose program ends in a fault,
is reported, and the session goes on with whatever the entry did before it
failed. Any other error is not caught and ends the session.
-/
import Lox.Prompt.Entry
import Lox.Run

namespace Lox

/-- The session's variables, and whether errors show a backtrace. -/
structure Session where
  env : Environment := .stack {}
  showTrace : Bool := false
deriving DecidableEq, Repr

namespace Session

/-- A machine that starts from the session's variables. -/
def machine (s : Session) : Machine :=
  { env := s.env }

-- ============================================================== questions

end Session

/-- Why a question about the session's scopes has no answer. -/
inductive Refusal where
  /-- The environment keeps no scopes that could answer it. -/
  | noScopes (question : String)
  /-- A value in the answer has no text. -/
  | malformed (m : Malformed)
deriving DecidableEq, Repr

def Refusal.message : Refusal → String
  | .noScopes question => "'NullScope' object has no attribute '" ++ question ++ "'"
  | .malformed m => m.message

namespace Session

/-- The value that the session's scopes have for a name. -/
def lookup (s : Session) (x : String) : Except Refusal (Option Value) :=
  match s.env with
  | .null => .error (.noScopes "lookup")
  | .stack scopes => .ok (scopes.lookup x)

-- =============================================================== commands

/-- The bindings of a scope as text. -/
def bindingsText : List (String × Value) → Except Malformed (List String)
  | [] => .ok []
  | (x, v) :: rest => do
      let text ← v.display
      let texts ← bindingsText rest
      return (x ++ " = " ++ text) :: texts

/-- The lines of some scopes, the first at the given depth; a value that has
no text ends the listing. -/
def scopeLines (depth : Nat) : List Scope → Except Malformed Unit × Trace
  | [] => (.ok (), [])
  | scope :: inner =>
      match bindingsText scope.bindings with
      | .error fault => (.error fault, [])
      | .ok texts =>
          let bindings := if texts.isEmpty then "(empty)" else String.intercalate ", " texts
          let line := .outLine (Prompt.indentation depth ++ scope.name ++ ": " ++ bindings)
          let (r, lines) := scopeLines (depth + 1) inner
          (r, line :: lines)

/-- The listing of the session's scopes, from the outermost in. -/
def listScopes (s : Session) : Except Refusal Unit × Trace :=
  match s.env with
  | .null => (.error (.noScopes "scopes"), [])
  | .stack scopes =>
      let (r, lines) := scopeLines 0 scopes.scopes
      (r.mapError .malformed, lines)

/-- What an argument of the backtrace command asks for; nothing if it is not
understood. An empty argument toggles. -/
def traceSwitch (current : Bool) (arg : String) : Option Bool :=
  let word := String.ofList (arg.toList.map Char.toLower)
  if ["on", "1", "true", "yes"].contains word then some true
  else if ["off", "0", "false", "no"].contains word then some false
  else if arg.isEmpty then some (!current)
  else none

/-- A command of the prompt: the first word names it, the rest is its
argument. -/
def command (s : Session) (name arg : String) : Except Refusal Unit × Trace × Session :=
  if name = "/clear" then (.ok (), [.clear], s)
  else if name = "/py-traceback" then
    match traceSwitch s.showTrace arg with
    | none => (.ok (), [.errLine "Usage: /py-traceback [on|off]"], s)
    | some on =>
        (.ok (), [.outLine ("Python traceback: " ++ if on then "on" else "off")],
          { s with showTrace := on })
  else if name = "/reset" then
    (.ok (), [.outLine "Environment reset."], { s with env := .stack {} })
  else if name = "/scopes" then
    let (r, lines) := s.listScopes
    (r, lines, s)
  else (.ok (), [.errLine ("Unknown command: " ++ name)], s)

/-- Carry out a line that is a command, that is, starts with a slash after
its blanks. -/
def slash? (s : Session) (line : String) : Option (Except Refusal Unit × Trace × Session) :=
  let stripped := Text.trim line
  if stripped.toList.head? == some '/' then
    let (name, arg) := Text.firstWord stripped
    some (s.command name arg)
  else none

end Session

-- ============================================================= breakdowns

/-- An error that the prompt does not report, so that it ends the session. -/
inductive Breakdown where
  /-- A command that cannot be answered. -/
  | refused (r : Refusal)
  /-- Program text that fails in a way of its own. -/
  | failed (failure : Failure)
  /-- A value that has no text. -/
  | unprintable (m : Malformed)
deriving DecidableEq, Repr

def Breakdown.message : Breakdown → String
  | .refused r => r.message
  | .failed failure => failure.message
  | .unprintable m => m.message

/-- Whether the prompt reports a failure: an objection of the grammar, or a
fault of a program that is well formed. -/
def Failure.isReported : Failure → Bool
  | .parse (.rejected _ _) => true
  | .parse .exhausted | .parse (.notNumeral _) => false
  | .runtime (.illTyped _) | .runtime (.undefined _) | .runtime .globalPopped => true
  | .runtime (.malformed _) => false

namespace Session

-- =========================================================== program text

/-- Run an entry as statements or as an expression, as its text asks for. The
flag tells which. -/
def runEntry (text : String) (m : Machine) : RunOutcome × Bool :=
  if Prompt.isStatementText text then (runSource text .echo m, true)
  else (evalSource text .echo m, false)

/-- The word for a kind of failure in the log. -/
def failureName : Failure → String
  | .parse _ => "ParseError"
  | .runtime (.illTyped _) => "LoxTypeError"
  | .runtime (.undefined _) => "LoxNameError"
  | .runtime .globalPopped => "LoxScopeError"
  | .runtime (.malformed _) => "TypeError"

/-- The line that stands for a backtrace. -/
def backtraceMark : String := "<traceback>"

/-- What is shown for a failed entry. -/
def failureEffects (s : Session) (failure : Failure) : Trace :=
  [.debug .prompt ("REPL entry failed: " ++ failureName failure), .errLine failure.message] ++
    if s.showTrace then [.errLine "\nPython traceback:", .errLine backtraceMark] else []

/-- What is shown for the value of an entry: nothing if it ran as statements
and the value is nil. -/
def valueEffects (ranStatements : Bool) (v : Value) : Except Malformed Trace :=
  if ranStatements && v == .nil then .ok []
  else match v.display with
    | .ok text => .ok [.outLine text]
    | .error fault => .error fault

/-- Run an entry that is program text. -/
def program (s : Session) (text : String) : Except Breakdown Unit × Trace × Session :=
  let ((r, m), ranStatements) := runEntry text s.machine
  let s' := { s with env := m.env }
  match r with
  | .error failure =>
      if failure.isReported then (.ok (), m.trace ++ s.failureEffects failure, s')
      else (.error (.failed failure), m.trace, s')
  | .ok v =>
      match valueEffects ranStatements v with
      | .ok shown => (.ok (), m.trace ++ shown, s')
      | .error fault => (.error (.unprintable fault), m.trace, s')

/-- Handle one entry as it was typed. -/
def enter (s : Session) (typed : String) : Except Breakdown Unit × Trace × Session :=
  let text := Prompt.normalize typed
  if (Text.stripLeft text.toList).isEmpty then (.ok (), [], s)
  else match s.slash? text with
    | some (r, effects, s') => (r.mapError .refused, effects, s')
    | none => s.program text

end Session

end Lox

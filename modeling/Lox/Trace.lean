/-
What a run does to the outside, as a list of effects in order.

Texts go to standard output or to the error stream, log records go to the
error stream if logging is set up and their severity reaches the level, and
the screen can be cleared. The pure part of the program only lists effects;
the views at the end of this file say what each stream then shows.
-/
import Lox.Text.Quoted
import Lox.Token

namespace Lox

-- =========================================================== log records

inductive Severity where
  | debug | warning
deriving DecidableEq, Repr

def Severity.name : Severity → String
  | .debug => "DEBUG"
  | .warning => "WARNING"

def Severity.level : Severity → Nat
  | .debug => 10
  | .warning => 30

/-- The part of the program that writes a record. -/
inductive Logger where
  | scanner | scopes | runner | prompt
deriving DecidableEq, Repr

def Logger.name : Logger → String
  | .scanner => "LoxLexer"
  | .scopes => "ScopeStack"
  | .runner => "LoxRunner"
  | .prompt => "LoxRepl"

structure LogRecord where
  severity : Severity
  logger : Logger
  text : String
deriving DecidableEq, Repr

/-- The line of a record. -/
def LogRecord.line (r : LogRecord) : String :=
  r.severity.name ++ " " ++ r.logger.name ++ ": " ++ r.text

-- =============================================================== effects

inductive Effect where
  | out (text : String)
  | err (text : String)
  | log (record : LogRecord)
  | clear
deriving DecidableEq, Repr

abbrev Trace := List Effect

namespace Effect

/-- A line on standard output. -/
def outLine (text : String) : Effect :=
  .out (text ++ "\n")

/-- A line on the error stream. -/
def errLine (text : String) : Effect :=
  .err (text ++ "\n")

def debug (logger : Logger) (text : String) : Effect :=
  .log ⟨.debug, logger, text⟩

end Effect

/-- A way of telling about lexical errors. -/
abbrev Reporter := LexError → Effect

/-- Lexical errors as lines on the error stream. -/
def Reporter.echo : Reporter :=
  fun e => .errLine e.report

/-- Lexical errors as warnings in the log. -/
def Reporter.warn : Reporter :=
  fun e => .log ⟨.warning, .scanner, e.report⟩

-- ================================================================= views

namespace Trace

/-- The mark that stands for a cleared screen in the text of a stream. -/
def clearMark : String := "<clear>\n"

/-- The text on standard output. -/
def stdout (t : Trace) : String :=
  String.join (t.map fun
    | .out text => text
    | .clear => clearMark
    | _ => "")

/-- The text on the error stream. Records of the given level and above are
shown there; none are if no level is set. -/
def stderr (t : Trace) (level : Option Int) : String :=
  String.join (t.map fun
    | .err text => text
    | .log record =>
        match level with
        | some n => if n ≤ record.severity.level then record.line ++ "\n" else ""
        | none => ""
    | _ => "")

/-- The lines of all log records. -/
def logLines (t : Trace) : List String :=
  t.filterMap fun
    | .log record => some record.line
    | _ => none

end Trace

end Lox

/-
The command line.

A command takes a source and prints tokens, a parsed expression, its value,
the output of a program, or the outline of one. The exit code tells how it
went: 0 for success, 1 for a command line or file that cannot be used, 65
for text with lexical or syntax errors, 70 for a fault at run time. Lexical
errors are reported as they are met and only decide the code at the end.
-/
import Lox.Disk
import Lox.Node.Outline
import Lox.Node.Text
import Lox.Prompt.Loop
import Lox.Settings

namespace Lox

-- ============================================================== exit codes

inductive Exit where
  | ok | usage | dataError | runtimeError
deriving DecidableEq, Repr

def Exit.code : Exit → Nat
  | .ok => 0
  | .usage => 1
  | .dataError => 65
  | .runtimeError => 70

-- ================================================================ commands

inductive Command where
  | tokenize | parse | evaluate | run | tree
deriving DecidableEq, Repr

def Command.name : Command → String
  | .tokenize => "tokenize"
  | .parse => "parse"
  | .evaluate => "evaluate"
  | .run => "run"
  | .tree => "tree"

def Command.all : List Command :=
  [.tokenize, .parse, .evaluate, .run, .tree]

theorem Command.mem_all (c : Command) : c ∈ Command.all := by
  cases c <;> decide

/-- The command of a name. -/
def Command.ofName? (name : String) : Option Command :=
  Command.all.find? (·.name == name)

/-- The exit code at the end: lexical errors make an otherwise good run
fail. -/
def finish (errors : List LexError) : Exit :=
  if errors.isEmpty then .ok else .dataError

/-- What is shown for a failure. -/
def failureReport (showTrace : Bool) (message : String) : Trace :=
  .errLine message :: if showTrace then [.errLine Session.backtraceMark] else []

/-- What each event of a scan shows: the line of a token or the report of an
error. -/
def Event.effect : Event → Effect
  | .token t => .outLine t.render
  | .error e => .errLine e.report

/-- A text that may be missing, on a line of its own. -/
def textLine : Except Malformed String → Trace
  | .ok text => [.outLine text]
  | .error fault => [.errLine fault.message]

namespace Command

/-- List the tokens of a source. -/
def runTokenize (source : String) : Exit × Trace :=
  let events := scan source
  (finish (errorsOf events), events.map Event.effect)

/-- Print the expression at the start of a source. -/
def runParse (source : String) (showTrace : Bool) : Exit × Trace :=
  let (r, c) := (Cursor.ofSource source).expression
  let reports := c.reported.map Reporter.echo
  match r with
  | .error failure => (.dataError, reports ++ failureReport showTrace failure.message)
  | .ok node => (finish c.reported, reports ++ textLine node.format)

/-- The exit code of a failure. -/
def failureExit : Failure → Exit
  | .parse _ => .dataError
  | .runtime _ => .runtimeError

/-- Print the value of the expression at the start of a source, evaluated
without variables. -/
def runEvaluate (source : String) (showTrace : Bool) : Exit × Trace :=
  let errors := (Cursor.ofSource source).expression.2.reported
  let (r, m) := evalSource source .echo { env := .null }
  match r with
  | .error failure => (failureExit failure, m.trace ++ failureReport showTrace failure.message)
  | .ok v => (finish errors, m.trace ++ textLine v.display)

/-- Run a source as a program. -/
def runRun (source : String) (showTrace : Bool) : Exit × Trace :=
  let ((r, m), errors) := (Cursor.ofSource source).runTelling .echo .nil {} []
  match r with
  | .error failure => (failureExit failure, m.trace ++ failureReport showTrace failure.message)
  | .ok _ => (finish errors, m.trace)

/-- Print the outline of a program. -/
def runTree (source : String) (showTrace : Bool) : Exit × Trace :=
  let (nodes, failure, c) := (Cursor.ofSource source).program
  let reports := c.reported.map Reporter.echo
  match failure with
  | some failure => (.dataError, reports ++ failureReport showTrace failure.message)
  | none =>
      match programOutline nodes with
      | .ok outline => (finish c.reported, reports ++ [.out outline.pretty])
      | .error fault => (.dataError, reports ++ [.errLine fault.message])

/-- Carry out a command on a source. -/
def execute (c : Command) (source : String) (showTrace : Bool) : Exit × Trace :=
  match c with
  | .tokenize => runTokenize source
  | .parse => runParse source showTrace
  | .evaluate => runEvaluate source showTrace
  | .run => runRun source showTrace
  | .tree => runTree source showTrace

-- ============================================================= breakdowns

/-- A failure that is not reported breaks a command down. -/
def failureBreakdown? (failure : Failure) : Option Breakdown :=
  if failure.isReported then none else some (.failed failure)

/-- So does something to print that has no text. -/
def textBreakdown? {α : Type} : Except Malformed α → Option Breakdown
  | .ok _ => none
  | .error fault => some (.unprintable fault)

/-- Why a command breaks down on a source instead of ending with an exit
code, if it does. -/
def breakdown? (c : Command) (source : String) : Option Breakdown :=
  match c with
  | .tokenize => none
  | .parse =>
      match (Cursor.ofSource source).expression.1 with
      | .error failure => failureBreakdown? (.parse failure)
      | .ok node => textBreakdown? node.format
  | .evaluate =>
      match (evalSource source .echo { env := .null }).1 with
      | .error failure => failureBreakdown? failure
      | .ok v => textBreakdown? v.display
  | .run =>
      match (runSource source .echo {}).1 with
      | .error failure => failureBreakdown? failure
      | .ok _ => none
  | .tree =>
      match (Cursor.ofSource source).program.2.1 with
      | some failure => failureBreakdown? (.parse failure)
      | none => textBreakdown? (programOutline (Cursor.ofSource source).program.1)

end Command

-- ================================================================ requests

def usageText : String :=
  "Usage: lox-ref [--log-level=LEVEL] [--py-traceback] <tokenize|parse|evaluate|run|tree> <filename>\n       lox-ref repl"

/-- What the words of a command line ask for. -/
inductive Request where
  | prompt
  | usage
  | unknown (name : String)
  | command (c : Command) (file : String)
deriving DecidableEq, Repr

def Request.ofWords : List String → Request
  | "repl" :: _ => .prompt
  | [name, file] =>
      match Command.ofName? name with
      | some c => .command c file
      | none => .unknown name
  | _ => .usage

/-- Why a command line can end without an exit code. -/
inductive Escape where
  | level (fault : LevelFault)
  /-- The name of the file holds a NUL. -/
  | nulInPath
  /-- The source is not UTF-8. -/
  | notText
  /-- A command broke down on its source. -/
  | command (breakdown : Breakdown)
  /-- A session at the prompt broke down. -/
  | prompt (breakdown : Breakdown)
deriving DecidableEq, Repr

def Escape.message : Escape → String
  | .level fault => fault.message
  | .nulInPath => "embedded null byte"
  | .notText => "not UTF-8"
  | .command breakdown | .prompt breakdown => breakdown.message

/-- Where sources come from: standard input, and files by path. -/
structure Inputs where
  stdin : ByteArray
  read : Path → Except ReadFault ByteArray

/-- What a file name leads to: bytes or a fault. The name `-` is standard
input. -/
def Inputs.load (inputs : Inputs) (file : String) : Except ReadFault ByteArray :=
  if file = "-" then .ok inputs.stdin else inputs.read (.ofText file)

/-- The record that announces a command. -/
def announcement (c : Command) (file source : String) : Effect :=
  .debug .runner
    ("Running " ++ c.name ++ " on " ++ file ++ " (" ++ toString source.length ++ " chars)")

/-- Carry out a command on a named source. -/
def Command.onFile (c : Command) (file : String) (showTrace : Bool) (inputs : Inputs) :
    Except Escape (Exit × Trace) :=
  if file.toList.contains '\x00' then .error .nulInPath
  else
    match inputs.load file with
    | .error fault =>
        .ok (.usage, [.errLine ("Cannot read " ++ file ++ ": " ++ fault.message (.ofText file))])
    | .ok bytes =>
        match sourceText? bytes with
        | none => .error .notText
        | some source =>
            match c.breakdown? source with
            | some breakdown => .error (.command breakdown)
            | none =>
                let (exit, trace) := c.execute source showTrace
                .ok (exit, announcement c file source :: trace)

/-- Carry out a request other than the prompt, which has a loop of its
own. -/
def Request.perform (r : Request) (showTrace : Bool) (inputs : Inputs) :
    Except Escape (Exit × Trace) :=
  match r with
  | .prompt => .ok (.ok, [])
  | .usage => .ok (.usage, [.errLine usageText])
  | .unknown name => .ok (.usage, [.errLine ("Unknown command: " ++ name)])
  | .command c file => c.onFile file showTrace inputs

/-- A whole command line: the exit code and the effects, or what escaped, and
the log level that decides which records are seen. -/
structure CommandResult where
  result : Except Escape (Exit × Trace)
  level : Option Int

def CommandResult.trace (r : CommandResult) : Trace :=
  match r.result with
  | .ok (_, trace) => trace
  | .error _ => []

def CommandResult.stdout (r : CommandResult) : String :=
  r.trace.stdout

def CommandResult.stderr (r : CommandResult) : String :=
  r.trace.stderr r.level

/-- Run a command line. -/
def commandLine (env : Variables) (args : List String) (inputs : Inputs) : CommandResult :=
  match Settings.ofArgs env args with
  | .error fault => ⟨.error (.level fault), none⟩
  | .ok s => ⟨(Request.ofWords s.words).perform s.showTrace inputs, some s.level⟩

-- ============================================================== the prompt

/-- An interactive run: the exit code unless something escaped, what was
shown piece by piece, and the log level that decides which records are
seen. -/
structure PromptResult where
  result : Except Escape Exit
  shown : List Prompt.Shown
  level : Option Int

/-- A session with the given entries. Its backtraces are governed by the
environment alone. -/
def promptSession (env : Variables) (entries : List Prompt.Entry) :
    Except Breakdown Unit × List Prompt.Shown :=
  Prompt.run { showTrace := env.showTrace } entries

/-- Run a command line whose prompt, if it asks for one, gets the given
entries. -/
def promptLine (env : Variables) (args : List String) (entries : List Prompt.Entry)
    (inputs : Inputs) : PromptResult :=
  match Settings.ofArgs env args with
  | .error fault => ⟨.error (.level fault), [⟨[], none⟩], none⟩
  | .ok s =>
      match Request.ofWords s.words with
      | .prompt =>
          let (r, shown) := promptSession env entries
          ⟨(r.mapError .prompt).map fun _ => .ok, shown, some s.level⟩
      | request =>
          match request.perform s.showTrace inputs with
          | .error escape => ⟨.error escape, [⟨[], none⟩], some s.level⟩
          | .ok (exit, trace) => ⟨.ok exit, [⟨trace, none⟩], some s.level⟩

end Lox

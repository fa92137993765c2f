/-
The program: effects carried out, files read, lines taken from the user.

Everything that decides anything is in the other modules. Here the effects
of a trace are written to the streams, the bytes of a file are fetched, and
the prompt's loop is driven by lines from standard input, an entry going on
over several lines while a brace is open.
-/
import Lox.Command

namespace Lox.Main

-- ================================================================ effects

/-- The control sequence that clears a terminal. -/
def clearSequence : String := "\x1b[2J\x1b[H"

/-- Carry out one effect. -/
def perform (level : Option Int) (effect : Effect) : IO Unit := do
  match effect with
  | .out text => (← IO.getStdout).putStr text
  | .clear => (← IO.getStdout).putStr clearSequence
  | _ => (← IO.getStderr).putStr (Trace.stderr [effect] level)

/-- Carry out effects in order. -/
def performAll (level : Option Int) (trace : Trace) : IO Unit := do
  trace.forM (perform level)
  (← IO.getStdout).flush

-- ================================================================== files

/-- The fault that a failed read amounts to. -/
def faultOf : IO.Error → ReadFault
  | .permissionDenied .. => .denied
  | .invalidArgument _ 36 _ => .nameTooLong
  | .inappropriateType _ code _ => if code = 21 then .isFolder else .notFolder
  | _ => .missing

/-- The bytes of a file, or why it cannot be read. -/
def readPath (path : Path) : IO (Except ReadFault ByteArray) := do
  try
    let bytes ← IO.FS.readBinFile path.text
    return .ok bytes
  catch e => return .error (faultOf e)

/-- All bytes of standard input. -/
partial def readStdin (input : IO.FS.Stream) (bytes : ByteArray) : IO ByteArray := do
  let chunk ← input.read 65536
  if chunk.isEmpty then return bytes
  readStdin input (bytes ++ chunk)

/-- What a request needs from outside, fetched before it is performed. -/
def fetch (file : String) : IO Inputs := do
  if file = "-" then
    let bytes ← readStdin (← IO.getStdin) ByteArray.empty
    return ⟨bytes, fun _ => .error .missing⟩
  else
    let r ← readPath (.ofText file)
    return ⟨ByteArray.empty, fun _ => r⟩

-- ================================================================= prompt

/-- One entry from the user: a line, and more lines while a brace is open.
Nothing at the end of input. -/
partial def readEntry (input : IO.FS.Stream) (typed : String) : IO (Option String) := do
  (← IO.getStdout).putStr (if typed.isEmpty then ">>> " else "... ")
  (← IO.getStdout).flush
  let line ← input.getLine
  if line.isEmpty then return none
  let text := typed ++ line
  if Prompt.braceDepth text = 0 then return some text
  readEntry input text

/-- The prompt's loop, and the exit code at its end. -/
partial def promptLoop (level : Option Int) (s : Session) : IO UInt32 := do
  match ← readEntry (← IO.getStdin) "" with
  | none =>
      performAll level [.out "\n"]
      return 0
  | some text =>
      let (r, shown, s') := Prompt.step s (.line text)
      performAll level shown.effects
      match r with
      | .ok () => promptLoop level s'
      | .error breakdown =>
          performAll level [.errLine breakdown.message]
          return 1

-- =============================================================== the main

/-- The environment variables that settings are read from. -/
def environmentVariables : IO Variables := do
  let names := ["LOX_LOG_LEVEL", "LOX_DEBUG_PY_TRACE"]
  names.filterMapM fun name => do
    return (← IO.getEnv name).map (name, ·)

/-- Carry out a request and give the exit code. -/
def serve (env : Variables) (s : Settings) : IO UInt32 := do
  match Request.ofWords s.words with
  | .prompt =>
      performAll s.level [Prompt.banner]
      promptLoop s.level { showTrace := env.showTrace }
  | request =>
      let inputs ← match request with
        | .command _ file => fetch file
        | _ => pure ⟨ByteArray.empty, fun _ => .error .missing⟩
      match request.perform s.showTrace inputs with
      | .ok (exit, trace) =>
          performAll s.level trace
          return exit.code.toUInt32
      | .error escape =>
          performAll s.level [.errLine escape.message]
          return 1

end Lox.Main

def main (args : List String) : IO UInt32 := do
  let env ← Lox.Main.environmentVariables
  match Lox.Settings.ofArgs env args with
  | .ok s => Lox.Main.serve env s
  | .error fault =>
      Lox.Main.performAll none [.errLine fault.message]
      return 1

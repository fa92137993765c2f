/-
Reading an entry at the prompt.

What is typed loses its invisible characters. An entry that ends in a
semicolon or a closing brace is run as statements, any other is evaluated as
an expression; and the Enter key submits an entry only when no brace is open
in it. A line that starts with a slash is a command, and the names of the
commands are completed while typing.
-/
import Lox.Scanner
import Lox.Text.Index

namespace Lox.Prompt

-- =============================================================== the text

/-- The characters that are dropped from what is typed: the zero-width ones,
the no-break space, and carriage returns. -/
def isInvisible (c : Char) : Bool :=
  [0x200B, 0x200C, 0x200D, 0xFEFF, 0x00A0, 0x000D].contains c.toNat

/-- The text without its invisible characters. -/
def normalize (text : String) : String :=
  String.ofList (text.toList.filter (!isInvisible ·))

/-- Whether a text is run as statements: the last character that is not
blank is a semicolon or a closing brace. -/
def isStatementText (text : String) : Bool :=
  match (Text.stripRight text.toList).getLast? with
  | some c => c = ';' || c = '}'
  | none => false

/-- How a token changes the number of open braces, which never falls below
zero. -/
def countBrace (depth : Nat) (t : Token) : Nat :=
  match t.kind with
  | .leftBrace => depth + 1
  | .rightBrace => depth - 1
  | _ => depth

/-- How many braces of a text are still open. -/
def braceDepth (text : String) : Nat :=
  (tokenize text).foldl countBrace 0

-- =============================================================== commands

/-- The commands of the prompt with their descriptions. -/
def commands : List (String × String) :=
  [("/clear", "Clear the terminal screen"),
    ("/py-traceback", "Toggle Python traceback on errors"),
    ("/reset", "Reset the REPL environment"),
    ("/scopes", "Show the scope stack and its bindings")]

/-- A suggestion: what to insert, where it starts relative to the cursor, and
its description. -/
structure Completion where
  text : String
  start : Int
  description : String
deriving DecidableEq, Repr

/-- The completions of the text before the cursor. Only a text that starts
with a slash has any. -/
def completions (before : String) : List Completion :=
  let typed := before.toList
  if typed.head? != some '/' then []
  else
    (commands.filter fun command => typed.isPrefixOf command.1.toList).map fun command =>
      ⟨command.1, -(typed.length : Int), command.2⟩

/-- A cursor that is past the end of its text. -/
structure CursorFault where
  cursor : Int
  length : Nat
deriving DecidableEq, Repr

def CursorFault.message (f : CursorFault) : String :=
  "cursor_position=" ++ toString f.cursor ++ ", len_text=" ++ toString f.length

/-- The completions at a cursor in a text. A position below zero counts from
the end; one past the end is refused. -/
def completionsAt (text : String) (cursor : Int) : Except CursorFault (List Completion) :=
  if text.length < cursor then .error ⟨cursor, text.length⟩
  else .ok (completions (String.ofList (Text.cut text.toList 0 cursor)))

-- =================================================================== keys

inductive Key where
  /-- Some text typed or pasted at the cursor. -/
  | insert (text : String)
  | enter
  | backspace
deriving DecidableEq, Repr

/-- The editor after a key: its text, whether it was submitted, and whether
the key opened the completion menu. -/
structure Editor where
  text : String := ""
  isSubmitted : Bool := false
  isCompleting : Bool := false
deriving DecidableEq, Repr

/-- The indentation of a line inside open braces. -/
def indentation (depth : Nat) : String :=
  String.ofList (List.replicate (2 * depth) ' ')

/-- A key pressed with the cursor at the end of the text. -/
def Editor.press (e : Editor) : Key → Editor
  | .insert text => { text := e.text ++ text }
  | .enter =>
      let depth := braceDepth e.text
      if depth = 0 then { text := e.text, isSubmitted := true }
      else { text := e.text ++ "\n" ++ indentation depth }
  | .backspace =>
      let text := String.ofList e.text.toList.dropLast
      { text, isCompleting := text.toList.head? == some '/' }

/-- The editor after each key, up to the one that submits the text. -/
def Editor.pressAll (e : Editor) : List Key → List Editor
  | [] => []
  | key :: keys =>
      let after := e.press key
      if after.isSubmitted then [after] else after :: after.pressAll keys

end Lox.Prompt

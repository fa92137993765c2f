/-
The prompt's loop over everything that is entered.

Entries are typed lines, key by key input, or interrupts. Each prompt takes
one entry and shows something for it; after the last entry the input ends
and with it the loop. Only an error that the prompt does not report could
end it earlier.
-/
import Lox.Prompt.Session

namespace Lox.Prompt

/-- What the user does at one prompt. -/
inductive Entry where
  | line (text : String)
  | interrupt
  | keys (keys : List Key)
deriving DecidableEq, Repr

/-- What one prompt showed: the effects, and the editor after each key if the
entry came key by key. -/
structure Shown where
  effects : Trace
  editors : Option (List Editor) := none
deriving DecidableEq, Repr

/-- The first line of a session. -/
def banner : Effect :=
  .outLine "lox repl - Ctrl-D to exit, / for commands"

/-- What an interrupt shows. -/
def interrupted : Trace :=
  [.outLine "KeyboardInterrupt"]

/-- What an entry amounts to: the submitted text, or nothing if it was an
interrupt. Keys that end before the text is submitted are an interrupt. -/
def Entry.text? : Entry → Option String
  | .line text => some text
  | .interrupt => none
  | .keys pressed =>
      match (({} : Editor).pressAll pressed).getLast? with
      | some e => if e.isSubmitted then some e.text else none
      | none => none

/-- The editor after each key of an entry that came key by key. -/
def Entry.editors? : Entry → Option (List Editor)
  | .keys pressed => some (({} : Editor).pressAll pressed)
  | _ => none

/-- One prompt. -/
def step (s : Session) (entry : Entry) : Except Breakdown Unit × Shown × Session :=
  match entry.text? with
  | none => (.ok (), ⟨interrupted, entry.editors?⟩, s)
  | some text =>
      let (r, effects, s') := s.enter text
      (r, ⟨effects, entry.editors?⟩, s')

/-- The prompts from a session on, and the end of input after the last. -/
def stepAll (s : Session) : List Entry → Except Breakdown Unit × List Shown
  | [] => (.ok (), [⟨[.out "\n"], none⟩])
  | entry :: rest =>
      match step s entry with
      | (.error breakdown, shown, _) => (.error breakdown, [shown])
      | (.ok (), shown, s') =>
          let (r, others) := stepAll s' rest
          (r, shown :: others)

/-- A whole session: how it ends, and what is shown before the first prompt,
at each prompt, and at the end. -/
def run (s : Session) (entries : List Entry) : Except Breakdown Unit × List Shown :=
  let (r, shown) := stepAll s entries
  (r, ⟨[banner], none⟩ :: shown)

end Lox.Prompt

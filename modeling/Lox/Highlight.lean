/-
Syntax highlighting: a text as styled fragments.

Each token is a fragment in the style of its kind, and what lies between
tokens (blanks, comments, characters that start no token) is plain. The
fragments put together are the text. Documents are highlighted line by
line, each line scanned on its own.
-/
import Lox.Scanner
import Lox.Text.Index
import Lox.Text.Lines

namespace Lox

inductive Style where
  | plain | keyword | constant | number | string
deriving DecidableEq, Repr

/-- The style in the terminal's terms. -/
def Style.name : Style → String
  | .plain => ""
  | .keyword => "bold ansicyan"
  | .constant => "ansicyan"
  | .number => "ansimagenta"
  | .string => "ansigreen"

/-- The style of a kind: truth values and nil are constants, the other
reserved words keywords; names, operators and punctuation are plain. -/
def Style.ofKind (kind : Kind) : Style :=
  match kind with
  | .trueKw | .falseKw | .nilKw => .constant
  | .number => .number
  | .string => .string
  | _ => if kind.word?.isSome then .keyword else .plain

structure Fragment where
  style : Style
  text : String
deriving DecidableEq, Repr

namespace Highlight

/-- A plain fragment, or none for an empty text. -/
def gap (cs : List Char) : List Fragment :=
  if cs.isEmpty then [] else [⟨.plain, String.ofList cs⟩]

/-- The fragments of the rest of a text, which starts at an offset, from the
tokens that lie in it. -/
def fragmentsFrom (rest : List Char) (pos : Nat) : List Token → List Fragment
  | [] => gap rest
  | t :: tokens =>
      if t.kind = .eof || t.start < pos then fragmentsFrom rest pos tokens
      else
        let before := rest.take (t.start - pos)
        let fromToken := rest.drop (t.start - pos)
        let length := t.stop - t.start
        gap before ++
          ⟨.ofKind t.kind, String.ofList (fromToken.take length)⟩ ::
            fragmentsFrom (fromToken.drop length) t.stop tokens

/-- The fragments of a line; an empty line has one that is empty. -/
def line (text : String) : List Fragment :=
  match fragmentsFrom text.toList 0 (tokenize text) with
  | [] => [⟨.plain, text⟩]
  | fragments => fragments

-- ============================================================= documents

/-- A document in the editor: its rows, and the fragments of the lines that
have been asked for, by the index that was given. -/
structure Document where
  rows : List (List Char)
  known : List (Int × List Fragment) := []
deriving Repr

namespace Document

def ofText (text : String) : Document :=
  { rows := Text.rows text.toList }

/-- The fragments of a line by its index: from zero, or from the end if
negative. A line past the end is empty, and there is none before the start. -/
def highlight (d : Document) (index : Int) : Except Text.IndexFault (List Fragment) :=
  if (d.rows.length : Int) ≤ index then .ok [⟨.plain, ""⟩]
  else (Text.atIndex d.rows index).map fun row => line (String.ofList row)

/-- A request for a line, which is highlighted at its first request only, and
the document after it. -/
def request (d : Document) (index : Int) : Except Text.IndexFault (List Fragment) × Document :=
  match d.known.lookup index with
  | some fragments => (.ok fragments, d)
  | none =>
      match d.highlight index with
      | .ok fragments => (.ok fragments, { d with known := (index, fragments) :: d.known })
      | .error fault => (.error fault, d)

/-- The answers to some requests, one after the other. -/
def requestAll (d : Document) : List Int → List (Except Text.IndexFault (List Fragment))
  | [] => []
  | index :: rest => (d.request index).1 :: (d.request index).2.requestAll rest

end Document

/-- The fragments of a line of a document, at its first request. -/
def documentLine (text : String) (index : Int) : Except Text.IndexFault (List Fragment) :=
  ((Document.ofText text).request index).1

end Highlight

end Lox

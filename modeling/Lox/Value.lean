/-
Values of the language and their texts.

There are four kinds of value: strings, reals, booleans and nil. A fifth
constructor, `absent`, is the place of a value that is missing: no program
text produces it, but a hand-built tree or a host that binds variables may
hold it, and what it does then (it cannot be displayed, and a variable bound
to it counts as undefined) is part of the interface.
-/
import Lox.Double.Text

namespace Lox

inductive Value where
  | nil
  | bool (b : Bool)
  | string (s : String)
  | real (x : Double)
  | absent
deriving DecidableEq, Repr, Inhabited

/-- What is wrong with a tree or value that no program text produces. -/
inductive Malformed where
  /-- A tree node of no known form. -/
  | unknownNode
  /-- A missing value where a text was asked for. -/
  | absentValue
deriving DecidableEq, Repr

def Malformed.message : Malformed → String
  | .unknownNode => "Unknown node: NoneType"
  | .absentValue => "Unexpected value type NoneType"

namespace Value

-- ============================================================== equality

/-- Equality of the language: kinds must agree, strings and booleans are
compared as they are, and reals by their bits with all NaNs alike. So NaN
equals itself and the two zeros differ. -/
def equal : Value → Value → Bool
  | .nil, .nil => true
  | .bool a, .bool b => a == b
  | .string a, .string b => a == b
  | .real x, .real y => x.key == y.key
  | .absent, .absent => true
  | _, _ => false

/-- The first occurrence of each value, in order. -/
def distinct (values : List Value) : List Value :=
  values.foldl (fun kept v => if kept.any (equal v) then kept else kept ++ [v]) []

-- ================================================================= texts

def boolText (b : Bool) : String :=
  if b then "true" else "false"

/-- The text that a program prints for a value. -/
def display : Value → Except Malformed String
  | .nil => .ok "nil"
  | .bool b => .ok (boolText b)
  | .string s => .ok s
  | .real x => .ok x.displayText
  | .absent => .error .absentValue

/-- The text of a value as a literal of a parsed expression: reals by their
literal text, strings without quotes. -/
def literalText : Value → Except Malformed String
  | .real x => .ok x.literalText
  | v => v.display

/-- The text of a value in an error message: strings stand in quotes. -/
def messageText : Value → String
  | .nil => "nil"
  | .bool b => boolText b
  | .string s => "\"" ++ s ++ "\""
  | .real x => x.messageText
  | .absent => "None"

end Value

end Lox

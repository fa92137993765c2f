/-
The text of a syntax tree: prefix form for expressions, program layout for
statements.

An operator goes before its operands in parentheses, statements end with a
semicolon, and the statements of a block stand on lines of their own,
indented by two spaces. The indentation is put before every line of the
statements' text, so nested blocks indent by their depth.
-/
import Lox.Node
import Lox.Text.Lines

namespace Lox.Node

/-- Texts put together with a separator between them. -/
def joined (separator : String) (texts : List String) : String :=
  String.intercalate separator texts

/-- A text with two spaces before each of its lines. -/
def indented (s : String) : String :=
  joined "\n" ((Text.lines s.toList).map fun line => String.ofList (' ' :: ' ' :: line))

/-- The text of a block from the texts of its statements. -/
def blockText : List String → String
  | [] => "{}"
  | texts => r"{" ++ "\n" ++ indented (joined "\n" texts) ++ "\n" ++ r"}"

mutual

/-- The text of a tree; the first malformed part, from left to right, is
reported instead if there is one. -/
def format : Node → Except Malformed String
  | .unary op operand => do
      let x ← format operand
      return "(" ++ op.symbol ++ " " ++ x ++ ")"
  | .binary op left right => do
      let x ← format left
      let y ← format right
      return "(" ++ op.symbol ++ " " ++ x ++ " " ++ y ++ ")"
  | .assignment name value => do
      let x ← format value
      return name ++ " = " ++ x
  | .literal value => value.literalText
  | .variable name => .ok name
  | .exprStmt expr => do
      let x ← format expr
      return x ++ ";"
  | .printStmt expr => do
      let x ← format expr
      return "print " ++ x ++ ";"
  | .declare name => .ok ("var " ++ name ++ ";")
  | .define name init => do
      let x ← format init
      return "var " ++ name ++ " = " ++ x ++ ";"
  | .assignStmt name value => do
      let x ← format value
      return name ++ " = " ++ x ++ ";"
  | .block statements => do
      let texts ← formatAll statements
      return blockText texts
  | .unknown => .error .unknownNode

/-- The texts of some trees, in order. -/
def formatAll : List Node → Except Malformed (List String)
  | [] => .ok []
  | node :: rest => do
      let text ← format node
      let texts ← formatAll rest
      return text :: texts

end

end Lox.Node

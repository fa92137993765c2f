/-
Outlines: syntax trees as labelled trees, for inspection.

Every node becomes a branch labelled by its form, with leaves for operators,
names and literals. The printed outline puts each branch and leaf on a line
of its own, indented by its depth, except that a branch over a single leaf
shares one line with it.
-/
import Lox.Node

namespace Lox

inductive Outline where
  | branch (label : String) (children : List Outline)
  | leaf (kind text : String)
deriving Repr, Inhabited

namespace Outline

-- ============================================================== printing

/-- The indentation at a depth. -/
def indent (depth : Nat) : String :=
  String.ofList (List.replicate (2 * depth) ' ')

mutual

/-- The lines of an outline at a depth. -/
def prettyAt (depth : Nat) : Outline → String
  | .leaf _ text => indent depth ++ text ++ "\n"
  | .branch label [.leaf _ text] => indent depth ++ label ++ "\t" ++ text ++ "\n"
  | .branch label children => indent depth ++ label ++ "\n" ++ prettyAll (depth + 1) children

/-- The lines of some outlines at a depth, in order. -/
def prettyAll (depth : Nat) : List Outline → String
  | [] => ""
  | o :: rest => prettyAt depth o ++ prettyAll depth rest

end

/-- The printed outline. -/
def pretty (o : Outline) : String :=
  o.prettyAt 0

end Outline

-- =============================================================== outlines

/-- The leaf of a literal: its kind and its text. -/
def Value.outline : Value → Except Malformed Outline
  | .real x => .ok (.leaf "NUMBER" x.literalText)
  | .string s => .ok (.leaf "STRING" s)
  | .bool b => .ok (.leaf "BOOLEAN" (boolText b))
  | .nil => .ok (.leaf "NIL" "nil")
  | .absent => .error .absentValue

namespace Node

private def operatorLeaf (op : Operator) : Outline :=
  .leaf "OP" op.symbol

private def nameLeaf (name : String) : Outline :=
  .leaf "IDENTIFIER" name

mutual

/-- The outline of a tree; the first malformed part is reported instead if
there is one. -/
def outline : Node → Except Malformed Outline
  | .unary op operand => do
      let x ← outline operand
      if op = .unary .group then return .branch "group" [x]
      else return .branch "unary" [operatorLeaf op, x]
  | .binary op left right => do
      let x ← outline left
      let y ← outline right
      return .branch "binary" [operatorLeaf op, x, y]
  | .assignment name value => do
      let x ← outline value
      return .branch "assign" [nameLeaf name, x]
  | .literal value => do
      let x ← value.outline
      return .branch "literal" [x]
  | .variable name => .ok (.branch "variable" [nameLeaf name])
  | .exprStmt expr => do
      let x ← outline expr
      return .branch "exprstmt" [x]
  | .printStmt expr => do
      let x ← outline expr
      return .branch "printstmt" [x]
  | .declare name => .ok (.branch "vardecl" [nameLeaf name])
  | .define name init => do
      let x ← outline init
      return .branch "vardecl" [nameLeaf name, x]
  | .assignStmt name value => do
      let x ← outline value
      return .branch "assignstmt" [nameLeaf name, x]
  | .block statements => do
      let xs ← outlineAll statements
      return .branch "block" xs
  | .unknown => .error .unknownNode

/-- The outlines of some trees, in order. -/
def outlineAll : List Node → Except Malformed (List Outline)
  | [] => .ok []
  | node :: rest => do
      let x ← outline node
      let xs ← outlineAll rest
      return x :: xs

end

end Node

/-- The outline of a whole program. -/
def programOutline (statements : List Node) : Except Malformed Outline := do
  let xs ← Node.outlineAll statements
  return .branch "program" xs

end Lox

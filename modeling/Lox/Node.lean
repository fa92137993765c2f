/-
Syntax trees of expressions and statements.

One type holds both, because trees may also be built by hand, and then an
operator may sit in the wrong form and a statement where an expression
belongs; evaluation and printing say what becomes of those. Trees that come
from program text are never of that sort.
-/
import Lox.Operator
import Lox.Value

namespace Lox

inductive Node where
  /-- A prefix operator and its operand; a parenthesised expression is one
  with the operator `group`. -/
  | unary (op : Operator) (operand : Node)
  | binary (op : Operator) (left right : Node)
  /-- Assignment inside an expression. -/
  | assignment (name : String) (value : Node)
  | literal (value : Value)
  | variable (name : String)
  | exprStmt (expr : Node)
  | printStmt (expr : Node)
  /-- A declaration without an initial value. -/
  | declare (name : String)
  /-- A declaration with an initial value. -/
  | define (name : String) (init : Node)
  /-- Assignment as a statement; its name must be bound already. -/
  | assignStmt (name : String) (value : Node)
  | block (statements : List Node)
  /-- A node of no known form. -/
  | unknown
deriving Repr, Inhabited

end Lox

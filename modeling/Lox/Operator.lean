/-
Operators and how tightly they bind.

A lower precedence number binds tighter. An open parenthesis takes part in
expression parsing as the unary operator `group`, whose number is above all
others so that no operator reduces it.
-/
import Lox.Token

namespace Lox

inductive UnaryOp where
  | positive | negative | not | group
deriving DecidableEq, Repr, Inhabited

inductive BinaryOp where
  | plus | minus | times | div
  | equalTo | notEqualTo
  | lessThan | greaterThan | lessThanOrEqualTo | greaterThanOrEqualTo
  | or | and
deriving DecidableEq, Repr, Inhabited

/-- An operator of an expression. Assignment is kept apart from the binary
operators because its left side must be a name. -/
inductive Operator where
  | unary (op : UnaryOp)
  | binary (op : BinaryOp)
  | assign
deriving DecidableEq, Repr, Inhabited

-- =============================================================== symbols

def UnaryOp.symbol : UnaryOp → String
  | .positive => "+"
  | .negative => "-"
  | .not => "!"
  | .group => "group"

def BinaryOp.symbol : BinaryOp → String
  | .plus => "+"
  | .minus => "-"
  | .times => "*"
  | .div => "/"
  | .equalTo => "=="
  | .notEqualTo => "!="
  | .lessThan => "<"
  | .greaterThan => ">"
  | .lessThanOrEqualTo => "<="
  | .greaterThanOrEqualTo => ">="
  | .or => "||"
  | .and => "&&"

def Operator.symbol : Operator → String
  | .unary op => op.symbol
  | .binary op => op.symbol
  | .assign => "="

theorem UnaryOp.symbol_inj {a b : UnaryOp} (h : a.symbol = b.symbol) : a = b := by
  revert h
  cases a <;> cases b <;> decide

theorem BinaryOp.symbol_inj {a b : BinaryOp} (h : a.symbol = b.symbol) : a = b := by
  revert h
  cases a <;> cases b <;> decide

-- ============================================================ precedence

def UnaryOp.precedence : UnaryOp → Int
  | .group => 100
  | _ => 3

def BinaryOp.precedence : BinaryOp → Int
  | .times | .div => 5
  | .plus | .minus => 6
  | .lessThan | .greaterThan | .lessThanOrEqualTo | .greaterThanOrEqualTo => 9
  | .equalTo | .notEqualTo => 10
  | .and => 14
  | .or => 15

def Operator.precedence : Operator → Int
  | .unary op => op.precedence
  | .binary op => op.precedence
  | .assign => 16

/-- Whether operators of a form group to the left when they meet their
equals: the binary ones do, prefix operators and assignment nest to the
right. -/
def Operator.isLeftAssociative : Operator → Bool
  | .binary _ => true
  | _ => false

/-- Whether a waiting operator is applied before an incoming one: it binds
tighter, or just as tight and groups to the left. -/
def Operator.reducesBefore (waiting : Operator) (precedence incoming : Int) : Bool :=
  decide (precedence < incoming) || (precedence == incoming && waiting.isLeftAssociative)

-- ================================================================ tokens

/-- The operator of a token where an operand is expected. -/
def UnaryOp.ofKind? : Kind → Option UnaryOp
  | .plus => some .positive
  | .minus => some .negative
  | .bang => some .not
  | _ => none

/-- The operator of a token after an operand. -/
def Operator.ofKind? : Kind → Option Operator
  | .plus => some (.binary .plus)
  | .minus => some (.binary .minus)
  | .star => some (.binary .times)
  | .slash => some (.binary .div)
  | .equalEqual => some (.binary .equalTo)
  | .bangEqual => some (.binary .notEqualTo)
  | .less => some (.binary .lessThan)
  | .lessEqual => some (.binary .lessThanOrEqualTo)
  | .greater => some (.binary .greaterThan)
  | .greaterEqual => some (.binary .greaterThanOrEqualTo)
  | .orKw => some (.binary .or)
  | .andKw => some (.binary .and)
  | .equal => some .assign
  | _ => none

end Lox

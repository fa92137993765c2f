/-
Operators applied to values.

Each operator accepts certain kinds of value and objects to all others; only
the kinds decide. Equality takes any two values, addition two reals or two
strings, the other arithmetic and the order two reals, conjunction and
disjunction two booleans. A zero is false to `!`, and so is nil.
-/
import Lox.Operator
import Lox.Value

namespace Lox

/-- An operator that was given values, or a place, it does not accept. -/
inductive TypeFault where
  | notNumber (v : Value)
  | notBoolean (v : Value)
  | cannotAdd (left right : Value)
  | cannotSubtract (left right : Value)
  | cannotMultiply (left right : Value)
  | cannotDivide (left right : Value)
  | cannotCompare (op : BinaryOp) (left right : Value)
  | cannotConnect (op : BinaryOp) (left right : Value)
  | unsupportedUnary (op : Operator)
  | unsupportedBinary (op : Operator)
deriving DecidableEq, Repr

def TypeFault.message : TypeFault → String
  | .notNumber v => "Cannot convert " ++ v.messageText ++ " to a number"
  | .notBoolean v => "Cannot convert " ++ v.messageText ++ " to a boolean"
  | .cannotAdd left right => "Cannot add " ++ left.messageText ++ " and " ++ right.messageText
  | .cannotSubtract left right =>
      "Cannot subtract " ++ right.messageText ++ " from " ++ left.messageText
  | .cannotMultiply left right =>
      "Cannot multiply " ++ left.messageText ++ " and " ++ right.messageText
  | .cannotDivide left right =>
      "Cannot divide " ++ left.messageText ++ " by " ++ right.messageText
  | .cannotCompare op left right =>
      "Cannot compare " ++ left.messageText ++ " " ++ op.symbol ++ " " ++ right.messageText
  | .cannotConnect op left right =>
      "Cannot apply " ++ op.symbol ++ " to " ++ left.messageText ++ " and " ++ right.messageText
  | .unsupportedUnary op => "Unsupported unary op " ++ op.symbol
  | .unsupportedBinary op => "Unsupported binary op " ++ op.symbol

-- ======================================================= prefix operators

def UnaryOp.apply : UnaryOp → Value → Except TypeFault Value
  | .group, v => .ok v
  | .positive, .real x => .ok (.real x)
  | .negative, .real x => .ok (.real x.neg)
  | .positive, v => .error (.notNumber v)
  | .negative, v => .error (.notNumber v)
  | .not, .bool b => .ok (.bool !b)
  | .not, .real x => .ok (.bool x.isZero)
  | .not, .nil => .ok (.bool true)
  | .not, v => .error (.notBoolean v)

/-- An operator in the place of a prefix operator. -/
def Operator.applyUnary : Operator → Value → Except TypeFault Value
  | .unary op, v => op.apply v
  | op, _ => .error (.unsupportedUnary op)

-- ======================================================= binary operators

def Value.add : Value → Value → Except TypeFault Value
  | .string a, .string b => .ok (.string (a ++ b))
  | .real x, .real y => .ok (.real (x.add y))
  | left, right => .error (.cannotAdd left right)

/-- An operation on two reals, with the objection to anything else. -/
def Value.onReals (f : Double → Double → Value) (fault : Value → Value → TypeFault) :
    Value → Value → Except TypeFault Value
  | .real x, .real y => .ok (f x y)
  | left, right => .error (fault left right)

/-- An operation on two booleans, with the objection to anything else. -/
def Value.onBooleans (f : Bool → Bool → Bool) (fault : Value → Value → TypeFault) :
    Value → Value → Except TypeFault Value
  | .bool a, .bool b => .ok (.bool (f a b))
  | left, right => .error (fault left right)

def BinaryOp.apply (op : BinaryOp) (left right : Value) : Except TypeFault Value :=
  match op with
  | .equalTo => .ok (.bool (left.equal right))
  | .notEqualTo => .ok (.bool !(left.equal right))
  | .plus => left.add right
  | .minus => Value.onReals (fun x y => .real (x.sub y)) .cannotSubtract left right
  | .times => Value.onReals (fun x y => .real (x.mul y)) .cannotMultiply left right
  | .div => Value.onReals (fun x y => .real (x.div y)) .cannotDivide left right
  | .lessThan => Value.onReals (fun x y => .bool (x.lt y)) (.cannotCompare op) left right
  | .greaterThan => Value.onReals (fun x y => .bool (y.lt x)) (.cannotCompare op) left right
  | .lessThanOrEqualTo => Value.onReals (fun x y => .bool (x.le y)) (.cannotCompare op) left right
  | .greaterThanOrEqualTo =>
      Value.onReals (fun x y => .bool (y.le x)) (.cannotCompare op) left right
  | .and => Value.onBooleans (· && ·) (.cannotConnect op) left right
  | .or => Value.onBooleans (· || ·) (.cannotConnect op) left right

/-- An operator in the place of a binary operator. -/
def Operator.applyBinary : Operator → Value → Value → Except TypeFault Value
  | .binary op, left, right => op.apply left right
  | op, _, _ => .error (.unsupportedBinary op)

end Lox

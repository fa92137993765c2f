/-
Postfix form: operands and operators in the order of application.

Expression parsing first writes an expression in postfix form and then folds
that back into a tree. The fold starts at the end, where the root operator
stands: an operator takes the trees of its operands from what comes before
it, the right one first. So items are kept here with the last one first.
-/
import Lox.Node
import Lox.ParseFailure

namespace Lox

/-- An item of postfix form. An operator may be unknown. -/
inductive Item where
  | operand (node : Node)
  | operator (op : Option Operator)
deriving Repr, Inhabited

namespace Postfix

/-- The tree at the end of some items, last item first, and the items before
it, which are fewer. -/
def tree : (items : List Item) →
    Except SyntaxFault (Node × { rest : List Item // rest.length < items.length })
  | [] => .error .missingOperand
  | .operand node :: rest => .ok (node, ⟨rest, Nat.lt_succ_self _⟩)
  | .operator (some (.binary op)) :: rest =>
      match tree rest with
      | .error fault => .error fault
      | .ok (right, ⟨beforeRight, hright⟩) =>
          match tree beforeRight with
          | .error fault => .error fault
          | .ok (left, ⟨beforeLeft, hleft⟩) =>
              .ok (.binary (.binary op) left right,
                ⟨beforeLeft, Nat.lt_trans hleft (Nat.lt_succ_of_lt hright)⟩)
  | .operator (some (.unary op)) :: rest =>
      match tree rest with
      | .error fault => .error fault
      | .ok (operand, ⟨before, h⟩) =>
          .ok (.unary (.unary op) operand, ⟨before, Nat.lt_succ_of_lt h⟩)
  | .operator (some .assign) :: rest =>
      match tree rest with
      | .error fault => .error fault
      | .ok (value, ⟨.operand (.variable name) :: before, h⟩) =>
          .ok (.assignment name value, ⟨before, Nat.lt_succ_of_lt (Nat.lt_of_succ_lt h)⟩)
      | .ok _ => .error .badTarget
  | .operator none :: _ => .error .unknownOperator
termination_by items => items.length

/-- The one tree that some items, last item first, stand for. -/
def wholeTree (items : List Item) : Except SyntaxFault Node :=
  match tree items with
  | .error fault => .error fault
  | .ok (node, ⟨[], _⟩) => .ok node
  | .ok _ => .error .operandsLeft

end Postfix

end Lox

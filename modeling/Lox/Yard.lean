/-
Expression parsing with an operator yard.

Operands go straight to the output, in postfix form; operators wait in the
yard until an operator arrives that does not bind tighter, or a closing
parenthesis or the end of the expression drives them out. An open
parenthesis waits among them as the operator `group` and is kept in the
output, so it shows in the tree.

An expression ends before a semicolon or the end token, which is left for
whoever comes next. Parsing moves over the tokens once, and never looks
further than the token it has.
-/
import Lox.Cursor
import Lox.Double.Numeral
import Lox.Postfix

namespace Lox

/-- The state of parsing inside an expression: the waiting operators, last
one first; the output so far, last item first; and whether an operand comes
next. -/
structure Yard where
  operators : List Operator := []
  output : List Item := []
  expectOperand : Bool := true
deriving Repr, Inhabited

namespace Yard

-- ====================================================== operand position

/-- The literal or variable of a token in operand position, if it is
one. -/
def operand (t : Token) : Except ParseFailure Node :=
  match t.kind with
  | .number =>
      match Double.ofText? t.lexeme with
      | some x => .ok (.literal (.real x))
      | none => .error (.notNumeral t.lexeme)
  | .string => .ok (.literal (.string (t.literal.getD "")))
  | .trueKw => .ok (.literal (.bool true))
  | .falseKw => .ok (.literal (.bool false))
  | .nilKw => .ok (.literal .nil)
  | .identifier => .ok (.variable t.lexeme)
  | _ => .error (.rejected (.operandExpected t.lexeme) (some t))

/-- The prefix operator of a token, an open parenthesis included. -/
def opener? (kind : Kind) : Option UnaryOp :=
  if kind = .leftParen then some .group else UnaryOp.ofKind? kind

/-- A token where an operand is expected. -/
def feedOperand (y : Yard) (t : Token) : Except ParseFailure Yard :=
  match opener? t.kind with
  | some op => .ok { y with operators := .unary op :: y.operators }
  | none =>
      match operand t with
      | .ok node => .ok { y with output := .operand node :: y.output, expectOperand := false }
      | .error failure => .error failure

-- ===================================================== operator position

/-- Move the waiting operators that apply before an incoming one to the
output, then let it wait. -/
def push (incoming : Operator) : List Operator → List Item → List Operator × List Item
  | [], output => ([incoming], output)
  | waiting :: below, output =>
      if waiting.reducesBefore waiting.precedence incoming.precedence then
        push incoming below (.operator (some waiting) :: output)
      else (incoming :: waiting :: below, output)

/-- Move the waiting operators down to the nearest open parenthesis to the
output, and it as well; none if no parenthesis is open. -/
def closeGroup : List Operator → List Item → Option (List Operator × List Item)
  | [], _ => none
  | waiting :: below, output =>
      if waiting = .unary .group then some (below, .operator (some waiting) :: output)
      else closeGroup below (.operator (some waiting) :: output)

/-- A token after an operand. -/
def feedOperator (y : Yard) (t : Token) : Except ParseFailure Yard :=
  if t.kind = .rightParen then
    match closeGroup y.operators y.output with
    | some (operators, output) => .ok { y with operators, output }
    | none => .error (.rejected .unmatchedParen (some t))
  else
    match Operator.ofKind? t.kind with
    | some op =>
        let (operators, output) := push op y.operators y.output
        .ok { operators, output, expectOperand := true }
    | none => .error (.rejected (.operatorExpected t.lexeme) (some t))

/-- One token of an expression. -/
def feed (y : Yard) (t : Token) : Except ParseFailure Yard :=
  if y.expectOperand then y.feedOperand t else y.feedOperator t

-- ============================================================ the result

/-- Move all waiting operators to the output; none if a parenthesis is still
open among them. -/
def flush : List Operator → List Item → Option (List Item)
  | [], output => some output
  | waiting :: below, output =>
      if waiting = .unary .group then none
      else flush below (.operator (some waiting) :: output)

/-- The tree of a finished expression. -/
def tree (y : Yard) : Except SyntaxFault Node :=
  match flush y.operators y.output with
  | none => .error .unclosedParen
  | some output => Postfix.wholeTree output

/-- The tree of an expression that ends before a given token. -/
def finish (y : Yard) (terminator : Token) : Except ParseFailure Node :=
  match y.tree with
  | .ok node => .ok node
  | .error fault => .error (.rejected fault (some terminator))

end Yard

-- ============================================================== the parse

/-- The outcome of parsing, and where the reader stands after it, also after
a failure. -/
abbrev Parsed (α : Type) := Except ParseFailure α × Cursor

/-- The tokens that end an expression. -/
def Kind.endsExpression (k : Kind) : Bool :=
  k = .semicolon || k = .eof

/-- Parse on from inside an expression, over the given events. -/
def Yard.run (y : Yard) (reported : List LexError) : List Event → Parsed Node
  | [] => (.error (.rejected .endInExpression none), ⟨[], reported⟩)
  | .error e :: rest => Yard.run y (reported ++ [e]) rest
  | .token t :: rest =>
      if t.kind.endsExpression then (y.finish t, ⟨.token t :: rest, reported⟩)
      else
        match y.feed t with
        | .error failure => (.error failure, ⟨rest, reported⟩)
        | .ok y' => Yard.run y' reported rest

/-- The yard made ready for another expression: nothing waits, nothing has
been put out, and an operand comes next. -/
def Yard.restart (y : Yard) : Yard :=
  { y with operators := [], output := [], expectOperand := true }

/-- Parse one expression in a yard that was used before; a parse that failed
may have left anything in it. -/
def Yard.expression (y : Yard) (c : Cursor) : Parsed Node :=
  Yard.run y.restart c.reported c.pending

/-- Parse one expression. -/
def Cursor.expression (c : Cursor) : Parsed Node :=
  Yard.expression {} c

-- =============================================================== progress

/-- A yard takes events and makes none. -/
theorem Yard.length_run_le (y : Yard) (reported : List LexError) (events : List Event) :
    (Yard.run y reported events).2.pending.length ≤ events.length := by
  fun_induction Yard.run y reported events with
  | case1 => exact Nat.le_refl _
  | case2 y reported e rest ih => simp only [List.length_cons]; omega
  | case3 => exact Nat.le_refl _
  | case4 => simp
  | case5 y reported t rest _ y' _ ih => simp only [List.length_cons]; omega

theorem Cursor.length_expression_le (c : Cursor) :
    (c.expression).2.pending.length ≤ c.pending.length :=
  Yard.length_run_le _ c.reported c.pending

end Lox

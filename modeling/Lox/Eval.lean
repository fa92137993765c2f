/-
Evaluation of syntax trees.

A machine is the variable environment and the effects so far. Evaluating a
node gives a value or a fault, and in either case the machine afterwards:
what was bound and printed before a fault stays. Both sides of every binary
operator are evaluated, left before right. A block runs in a scope of its
own that is popped whatever happens inside.
-/
import Lox.Node
import Lox.Scope
import Lox.Trace
import Lox.Value.Apply

namespace Lox

-- ================================================================ faults

/-- Why evaluation can fail. -/
inductive Fault where
  | illTyped (fault : TypeFault)
  | undefined (name : String)
  | globalPopped
  /-- The tree or a value in it is of the kind no program text produces. -/
  | malformed (m : Malformed)
deriving DecidableEq, Repr

def Fault.message : Fault → String
  | .illTyped fault => fault.message
  | .undefined name => "Variable " ++ name ++ " is not defined"
  | .globalPopped => "Cannot pop the global scope"
  | .malformed m => m.message

-- ============================================================== machines

/-- Where variables live: in scopes, or nowhere, for an expression that is
evaluated on its own. In the latter nothing is stored and nothing found. -/
inductive Environment where
  | stack (scopes : ScopeStack)
  | null
deriving DecidableEq, Repr

structure Machine where
  env : Environment := .stack {}
  trace : Trace := []
deriving DecidableEq, Repr

/-- A value or a fault, and the machine afterwards. -/
abbrev Outcome (α : Type) := Except Fault α × Machine

/-- Go on after success; a fault stays what it is. -/
def Outcome.andThen {α β : Type} (r : Outcome α) (k : α → Machine → Outcome β) : Outcome β :=
  match r with
  | (.ok a, m) => k a m
  | (.error fault, m) => (.error fault, m)

@[simp]
theorem Outcome.andThen_ok {α β : Type} (a : α) (m : Machine) (k : α → Machine → Outcome β) :
    Outcome.andThen (.ok a, m) k = k a m := rfl

@[simp]
theorem Outcome.andThen_error {α β : Type} (fault : Fault) (m : Machine)
    (k : α → Machine → Outcome β) : Outcome.andThen (.error fault, m) k = (.error fault, m) := rfl

namespace Machine

def emit (m : Machine) (effect : Effect) : Machine :=
  { m with trace := m.trace ++ [effect] }

@[simp]
theorem env_emit (m : Machine) (effect : Effect) : (m.emit effect).env = m.env := rfl

/-- Emit several effects in order. -/
def emitAll (m : Machine) (effects : List Effect) : Machine :=
  { m with trace := m.trace ++ effects }

@[simp]
theorem env_emitAll (m : Machine) (effects : List Effect) : (m.emitAll effects).env = m.env := rfl

/-- The line that tells of a change to the scopes. -/
def depthText (verb name : String) (depth : Nat) : String :=
  verb ++ " scope " ++ Text.quoted name ++ " (depth " ++ toString depth ++ ")"

def push (m : Machine) (name : String) : Machine :=
  match m.env with
  | .null => m
  | .stack s =>
      let pushed := s.push name
      { m with env := .stack pushed }.emit (.debug .scopes (depthText "Pushed" name pushed.depth))

def pop (m : Machine) : Outcome Unit :=
  match m.env with
  | .null => (.ok (), m)
  | .stack s =>
      match s.pop? with
      | none => (.error .globalPopped, m)
      | some (popped, below) =>
          (.ok (), { m with env := .stack below }.emit
            (.debug .scopes (depthText "Popped" popped.name below.depth)))

def declare (m : Machine) (x : String) : Machine :=
  match m.env with
  | .null => m
  | .stack s =>
      if s.bindsHere x then m
      else
        { m with env := .stack (s.declare x) }.emit
          (.debug .scopes ("Declared " ++ x ++ " in scope " ++ Text.quoted s.innermost.name))

def assign (m : Machine) (x : String) (v : Value) : Machine :=
  match m.env with
  | .null => m
  | .stack s => { m with env := .stack (s.assign x v) }

/-- The value of a variable, if it has one. -/
def lookup (m : Machine) (x : String) : Option Value :=
  match m.env with
  | .null => none
  | .stack s => s.lookup x

def isDefined (m : Machine) (x : String) : Bool :=
  (m.lookup x).isSome

/-- The value of a variable; a variable without one is a fault. -/
def get (m : Machine) (x : String) : Except Fault Value :=
  match m.lookup x with
  | some v => .ok v
  | none => .error (.undefined x)

end Machine

-- ============================================================ evaluation

/-- The outcome of applying an operator. -/
def applied (r : Except TypeFault Value) (m : Machine) : Outcome Value :=
  match r with
  | .ok v => (.ok v, m)
  | .error fault => (.error (.illTyped fault), m)

/-- Print a value on a line of its own. -/
def printed (v : Value) (m : Machine) : Outcome Value :=
  match v.display with
  | .ok text => (.ok .nil, m.emit (.outLine text))
  | .error fault => (.error (.malformed fault), m)

/-- Assign to a variable that must have a value already. -/
def reassigned (x : String) (v : Value) (m : Machine) : Outcome Value :=
  if m.isDefined x then (.ok v, m.assign x v) else (.error (.undefined x), m)

/-- Leave a block with the outcome of its statements. -/
def leaveBlock (r : Outcome Value) : Outcome Value :=
  match r.2.pop with
  | (.ok (), m) => (r.1, m)
  | (.error fault, m) => (.error fault, m)

/-- The name of every block's scope. -/
def blockName : String := "block"

mutual

def Node.eval : Node → Machine → Outcome Value
  | .literal v, m => (.ok v, m)
  | .variable x, m => (m.get x, m)
  | .unary op operand, m =>
      (Node.eval operand m).andThen fun v m => applied (op.applyUnary v) m
  | .binary op left right, m =>
      (Node.eval left m).andThen fun l m =>
        (Node.eval right m).andThen fun r m => applied (op.applyBinary l r) m
  | .assignment x value, m =>
      (Node.eval value m).andThen fun v m => (.ok v, m.assign x v)
  | .exprStmt expr, m => Node.eval expr m
  | .printStmt expr, m => (Node.eval expr m).andThen printed
  | .declare x, m => (.ok .nil, m.declare x)
  | .define x init, m =>
      (Node.eval init m).andThen fun v m => (.ok .nil, (m.declare x).assign x v)
  | .assignStmt x value, m => (Node.eval value m).andThen (reassigned x)
  | .block statements, m => leaveBlock (Node.evalAll statements .nil (m.push blockName))
  | .unknown, m => (.error (.malformed .unknownNode), m)

/-- Evaluate statements in order; the value is that of the last one, or the
given one if there is none. -/
def Node.evalAll : List Node → Value → Machine → Outcome Value
  | [], last, m => (.ok last, m)
  | node :: rest, _, m => (Node.eval node m).andThen fun v m => Node.evalAll rest v m

end

end Lox

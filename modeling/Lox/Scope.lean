/-
Scopes: names bound to values, in nested layers.

A scope keeps its names in the order in which they were first bound. Scopes
are stacked; reading a name searches from the innermost scope outwards,
while writing always goes to the innermost one, so an assignment inside a
block makes a binding of the block's own. There is always a global scope at
the bottom of the stack, and it cannot be popped.
-/
import Lox.Value

namespace Lox

-- ============================================================= one scope

/-- A named scope with its bindings, oldest name first. What is bound are
values, unless something else is said to stand for them. -/
structure Scope (α : Type := Value) where
  name : String
  bindings : List (String × α) := []
deriving DecidableEq, Repr, Inhabited

section

variable {α : Type}

/-- Bindings with a name bound anew: in its place if it is bound, at the end
otherwise. -/
def setBinding (x : String) (v : α) : List (String × α) → List (String × α)
  | [] => [(x, v)]
  | (y, w) :: rest => if y = x then (y, v) :: rest else (y, w) :: setBinding x v rest

namespace Scope

/-- What a name is bound to in this scope. -/
def find? (s : Scope α) (x : String) : Option α :=
  s.bindings.lookup x

def set (s : Scope α) (x : String) (v : α) : Scope α :=
  { s with bindings := setBinding x v s.bindings }

/-- The names of a scope in the order of first binding. -/
def names (s : Scope α) : List String :=
  s.bindings.map Prod.fst

end Scope

end

-- ============================================================== the stack

/-- The name of the scope at the bottom. -/
def globalName : String := "global"

/-- A stack of scopes, never empty: the innermost scope, and those around it
from the inside out. -/
structure ScopeStack (α : Type := Value) where
  innermost : Scope α := { name := globalName }
  outer : List (Scope α) := []
deriving DecidableEq, Repr, Inhabited

namespace ScopeStack

section

variable {α : Type}

/-- The scopes from the inside out. -/
def inward (s : ScopeStack α) : List (Scope α) :=
  s.innermost :: s.outer

/-- The scopes from the bottom up. -/
def scopes (s : ScopeStack α) : List (Scope α) :=
  s.inward.reverse

def depth (s : ScopeStack α) : Nat :=
  s.outer.length + 1

def push (s : ScopeStack α) (name : String) : ScopeStack α :=
  { innermost := { name }, outer := s.inward }

/-- The popped scope and the stack below it; nothing if only the bottom is
left. -/
def pop? (s : ScopeStack α) : Option (Scope α × ScopeStack α) :=
  match s.outer with
  | [] => none
  | below :: outer => some (s.innermost, { innermost := below, outer })

/-- Bind a name in the innermost scope. -/
def assign (s : ScopeStack α) (x : String) (v : α) : ScopeStack α :=
  { s with innermost := s.innermost.set x v }

/-- Whether the innermost scope binds a name. -/
def bindsHere (s : ScopeStack α) (x : String) : Bool :=
  (s.innermost.find? x).isSome

/-- Bind a name in the innermost scope unless it is bound there. -/
def assignNew (s : ScopeStack α) (x : String) (v : α) : ScopeStack α :=
  if s.bindsHere x then s else s.assign x v

/-- The innermost binding of a name. -/
def binding? (s : ScopeStack α) (x : String) : Option α :=
  s.inward.findSome? (·.find? x)

end

/-- Bind a name to nil in the innermost scope unless it is bound there. -/
def declare (s : ScopeStack) (x : String) : ScopeStack :=
  s.assignNew x .nil

/-- A declaration binds a name to nil unless it is bound here. -/
theorem declare_eq (s : ScopeStack) (x : String) :
    s.declare x = if s.bindsHere x then s else s.assign x .nil := rfl

/-- The value of a name: that of its innermost binding, unless it is bound to
an absent value. -/
def lookup (s : ScopeStack) (x : String) : Option Value :=
  match s.binding? x with
  | some .absent => none
  | found => found

def isDefined (s : ScopeStack) (x : String) : Bool :=
  (s.lookup x).isSome

end ScopeStack

end Lox

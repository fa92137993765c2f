/-
What is done before a fault.

When the evaluation of a tree ends in a fault, some of the trees below it
have been evaluated whole, and the rest has not been looked at. `completed`
lists the former in the order of evaluation. Evaluated one after the other,
on the same machine, they give no fault and bind what the tree has bound
(`exists_evalAll_completed`). So a fault undoes nothing and adds nothing.
Only a block takes its bindings with it.
-/
import Lox.Proofs.Scoping

namespace Lox

-- ====================================================== completed trees

/-- The trees that have been evaluated whole when the evaluation of a tree is
over: the tree itself, or those below it that came before the fault. A block
that faults leaves nothing behind. -/
def Node.completed (n : Node) (m : Machine) : List Node :=
  match (n.eval m).1 with
  | .ok _ => [n]
  | .error _ =>
      match n with
      | .unary _ e | .assignment _ e | .exprStmt e | .printStmt e | .define _ e
      | .assignStmt _ e => e.completed m
      | .binary _ left right =>
          match left.eval m with
          | (.ok _, m') => left :: right.completed m'
          | (.error _, _) => left.completed m
      | .literal _ | .variable _ | .declare _ | .block _ | .unknown => []

/-- The same of statements one after the other. -/
def Node.completedAll : List Node → Machine → List Node
  | [], _ => []
  | n :: ns, m =>
      match n.eval m with
      | (.ok _, m') => n :: Node.completedAll ns m'
      | (.error _, _) => n.completed m

-- ============================================================= at a fault

/-- A fault in what follows an evaluation, or in the evaluation itself, finds
the environment as the evaluation has left it. -/
theorem Outcome.env_andThen_error {r : Outcome Value} {k : Value → Machine → Outcome Value}
    {fault : Fault} (h : (r.andThen k).1 = .error fault)
    (hk : ∀ v m, (k v m).1 = .error fault → (k v m).2.env = m.env) :
    (r.andThen k).2.env = r.2.env := by
  rcases r with ⟨fault' | v, m⟩
  · rfl
  · exact hk v m h

/-- An operator leaves the environment alone. -/
theorem env_applied (r : Except TypeFault Value) (m : Machine) : (applied r m).2.env = m.env := by
  cases r <;> rfl

theorem env_printed (v : Value) (m : Machine) : (printed v m).2.env = m.env := by
  unfold printed
  split <;> rfl

/-- An assignment statement that fails has bound nothing. -/
theorem env_reassigned_error {x : String} {v : Value} {m : Machine} {fault : Fault}
    (h : (reassigned x v m).1 = .error fault) : (reassigned x v m).2.env = m.env := by
  unfold reassigned at h ⊢
  split at h
  · cases h
  · rw [if_neg ‹_›]

namespace Node

-- ========================================================== the same scopes

/-- A statement that runs through hands its machine to the next. -/
theorem evalAll_cons {n : Node} {m m' : Machine} {v : Value} (h : n.eval m = (.ok v, m'))
    (ns : List Node) (last : Value) : Node.evalAll (n :: ns) last m = Node.evalAll ns v m' := by
  rw [Node.evalAll, h]
  rfl

/-- What is completed gives no fault, and leaves the environment that the
whole tree leaves. -/
theorem exists_evalAll_completed (n : Node) (m : Machine) (last : Value) :
    ∃ v m', Node.evalAll (n.completed m) last m = (.ok v, m') ∧ m'.env = (n.eval m).2.env := by
  fun_induction Node.completed n m generalizing last with
  | case1 n m v h => exact ⟨v, _, evalAll_cons (Prod.ext h rfl) [] last, rfl⟩
  | case2 m fault op e h ih =>
      rw [Node.eval] at h ⊢
      rw [Outcome.env_andThen_error h fun v m _ => env_applied _ m]
      exact ih last
  | case3 m fault x e h ih =>
      rw [Node.eval] at h ⊢
      rw [Outcome.env_andThen_error h fun v m hv => by cases hv]
      exact ih last
  | case4 m fault e h ih =>
      rw [Node.eval]
      exact ih last
  | case5 m fault e h ih =>
      rw [Node.eval] at h ⊢
      rw [Outcome.env_andThen_error h fun v m _ => env_printed v m]
      exact ih last
  | case6 m fault x e h ih =>
      rw [Node.eval] at h ⊢
      rw [Outcome.env_andThen_error h fun v m hv => by cases hv]
      exact ih last
  | case7 m fault x e h ih =>
      rw [Node.eval] at h ⊢
      rw [Outcome.env_andThen_error h fun v m hv => env_reassigned_error hv]
      exact ih last
  -- the right side starts from the machine that the left side leaves, and so
  -- do its parts, since the left side is completed as a whole
  | case8 m fault op left right v m' hleft h ih =>
      rw [Node.eval, hleft, Outcome.andThen_ok] at h ⊢
      rw [Outcome.env_andThen_error h fun v m _ => env_applied _ m, evalAll_cons hleft]
      exact ih v
  | case9 m fault op left right fault' m' hleft h ih =>
      rw [hleft] at ih
      rw [Node.eval, hleft, Outcome.andThen_error]
      exact ih last
  | case10 m fault v h | case12 m fault x h => cases h
  | case11 m fault x h => exact ⟨last, m, rfl, rfl⟩
  | case13 m fault ss h => exact ⟨last, m, rfl, (Node.env_eval_block ss m).symm⟩
  | case14 m fault h => exact ⟨last, m, rfl, rfl⟩

/-- The same of several statements: those before the fault run through, and so
does what is completed of the one that faults. -/
theorem exists_evalAll_completedAll (ns : List Node) (m : Machine) (last : Value) :
    ∃ v m', Node.evalAll (Node.completedAll ns m) last m = (.ok v, m')
      ∧ m'.env = (Node.evalAll ns last m).2.env := by
  fun_induction Node.completedAll ns m generalizing last with
  | case1 m => exact ⟨last, m, rfl, rfl⟩
  | case2 n ns m v m' h ih =>
      rw [evalAll_cons h, evalAll_cons h]
      exact ih v
  | case3 n ns m fault m' h =>
      rw [Node.evalAll, h, Outcome.andThen_error]
      have hcompleted := n.exists_evalAll_completed m last
      rwa [h] at hcompleted

/-- The negation has no value to work on, and the sum is never made. The
assignment to its left has been. -/
example :
    completedAll [.declare "a", .printStmt (.binary (.binary .plus)
        (.assignment "a" (.literal .nil)) (.unary (.unary .negative) (.variable "b")))] {}
      = [.declare "a", .assignment "a" (.literal .nil)] := by rfl

end Node

end Lox

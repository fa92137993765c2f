/-
Variables have values that are there.

The host may bind a variable to a missing value, and such a variable cannot
be shown. A program does not: trees of the right form evaluate to values that
are there (`IsStatement.eval_sound`), and only such values are stored, so a
scope without a missing value stays one (`IsStatement.eval_present`). It is
enough to look at the innermost scope, since nothing else is written to and a
block leaves the scopes as they were.
-/
import Lox.Proofs.Completed
import Lox.Proofs.WellTyped

namespace Lox

-- ============================================================== bindings

/-- Every variable of the scope has a value. -/
def Scope.Present (scope : Scope) : Prop :=
  ∀ binding ∈ scope.bindings, binding.2 ≠ .absent

/-- The same of the innermost scope, if there is one. -/
def Environment.Present : Environment → Prop
  | .null => True
  | .stack s => s.innermost.Present

/-- Setting a binding adds the new value and no other. -/
theorem mem_setBinding {x : String} {v : Value} {bindings : List (String × Value)}
    {binding : String × Value} (h : binding ∈ setBinding x v bindings) :
    binding.2 = v ∨ binding ∈ bindings := by
  induction bindings with
  | nil =>
      rw [setBinding, List.mem_singleton] at h
      exact .inl (by rw [h])
  | cons first rest ih =>
      obtain ⟨y, w⟩ := first
      rw [setBinding] at h
      split at h <;> rw [List.mem_cons] at h ⊢
      · rcases h with rfl | h
        · exact .inl rfl
        · exact .inr (.inr h)
      · rcases h with rfl | h
        · exact .inr (.inl rfl)
        · exact (ih h).imp id .inr

/-- A scope stays free of absent values if none is bound in it. -/
theorem ScopeStack.present_assign {s : ScopeStack} (h : s.innermost.Present) (x : String)
    {v : Value} (hv : v ≠ .absent) : (s.assign x v).innermost.Present := by
  intro binding hmem
  rcases mem_setBinding hmem with heq | hmem
  · rw [heq]
    exact hv
  · exact h binding hmem

namespace Machine

variable {m : Machine}

theorem present_assign (h : m.env.Present) (x : String) {v : Value} (hv : v ≠ .absent) :
    (m.assign x v).env.Present := by
  unfold assign
  split
  · exact h
  · next s henv =>
      rw [henv] at h
      exact ScopeStack.present_assign h x hv

/-- A declaration binds nil, which is a value. -/
theorem present_declare (h : m.env.Present) (x : String) : (m.declare x).env.Present := by
  unfold declare
  split
  · exact h
  · next s henv =>
      split
      · exact h
      · next hbinds =>
          rw [henv] at h
          rw [env_emit, ScopeStack.declare_eq, if_neg hbinds]
          exact ScopeStack.present_assign h x (by simp)

end Machine

-- ============================================================ evaluation

/-- If no absent value is bound so far, and the rest of a computation binds
none, the whole binds none. -/
theorem Outcome.present_andThen {r : Outcome Value} {k : Value → Machine → Outcome Value}
    (hr : r.2.env.Present) (hsound : r.Sound)
    (hk : ∀ v m, v ≠ .absent → m.env.Present → (k v m).2.env.Present) :
    (r.andThen k).2.env.Present := by
  rcases r with ⟨fault | v, m⟩
  · exact hr
  · exact hk v m hsound hr

namespace Node

/-- An expression binds no absent value, since it gives none. -/
theorem IsExpression.eval_present {e : Node} (h : e.IsExpression) {m : Machine}
    (hm : m.env.Present) : (e.eval m).2.env.Present := by
  induction h generalizing m with
  | literal _ | name _ => exact hm
  | unary op he ih =>
      rw [Node.eval]
      refine Outcome.present_andThen (ih hm) (he.eval_sound m) fun v m _ hm => ?_
      rw [env_applied]
      exact hm
  | binary op hl hr ihl ihr =>
      rw [Node.eval]
      refine Outcome.present_andThen (ihl hm) (hl.eval_sound m) fun l m _ hm => ?_
      refine Outcome.present_andThen (ihr hm) (hr.eval_sound m) fun r m _ hm => ?_
      rw [env_applied]
      exact hm
  | assignment x he ih =>
      rw [Node.eval]
      exact Outcome.present_andThen (ih hm) (he.eval_sound m) fun v m hv hm =>
        Machine.present_assign hm x hv

/-- A statement of the right form stores only values that are there. -/
theorem IsStatement.eval_present {s : Node} (h : s.IsStatement) {m : Machine}
    (hm : m.env.Present) : (s.eval m).2.env.Present := by
  cases h with
  | exprStmt he =>
      rw [Node.eval]
      exact he.eval_present hm
  | printStmt he =>
      rw [Node.eval]
      refine Outcome.present_andThen (he.eval_present hm) (he.eval_sound m) fun v m _ hm => ?_
      rw [env_printed]
      exact hm
  | declare x => exact Machine.present_declare hm x
  | define x he =>
      rw [Node.eval]
      exact Outcome.present_andThen (he.eval_present hm) (he.eval_sound m) fun v m hv hm =>
        Machine.present_assign (Machine.present_declare hm x) x hv
  | assignStmt x he =>
      rw [Node.eval]
      refine Outcome.present_andThen (he.eval_present hm) (he.eval_sound m) fun v m hv hm => ?_
      unfold reassigned
      split
      · exact Machine.present_assign hm x hv
      · exact hm
  | block _ =>
      rw [Node.env_eval_block]
      exact hm

/-- A tree as an entry is parsed to it. -/
def IsEntered (n : Node) : Prop :=
  n.IsStatement ∨ n.IsExpression

/-- What can be entered gives a value or an ordinary fault. -/
theorem IsEntered.eval_sound {n : Node} (h : n.IsEntered) (m : Machine) : (n.eval m).Sound :=
  h.elim (·.eval_sound m) (·.eval_sound m)

/-- What can be entered binds no absent value. -/
theorem IsEntered.eval_present {n : Node} (h : n.IsEntered) {m : Machine} (hm : m.env.Present) :
    (n.eval m).2.env.Present :=
  h.elim (·.eval_present hm) (·.eval_present hm)

theorem evalAll_present {ns : List Node} (h : ∀ n ∈ ns, n.IsEntered) (last : Value) {m : Machine}
    (hm : m.env.Present) : (Node.evalAll ns last m).2.env.Present := by
  induction ns generalizing last m with
  | nil => exact hm
  | cons n ns ih =>
      rw [List.forall_mem_cons] at h
      rw [Node.evalAll]
      exact Outcome.present_andThen (h.1.eval_present hm) (h.1.eval_sound m) fun v m _ hm =>
        ih h.2 v hm

end Node

end Lox

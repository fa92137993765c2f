/-
What evaluation can do to the scopes.

Evaluating a node, well formed or not, and with or without a fault, touches
the innermost scope only, and there it only adds names and changes values.
`Extends` is that relation between a stack before and a stack after. Each
primitive of the machine respects it, and it is transitive, so the
evaluation of a node does, form by form.

A block runs on a pushed stack. By the same relation the scope below the
pushed one is untouched when the block is left, and there is one, so that
the pop succeeds and gives back the stack as it was. This is also why no
evaluation can pop the bottom scope: `Tidy` carries both facts through the
induction, since a block needs the first for the second.
-/
import Lox.Eval

namespace Lox

-- ============================================================ one scope

/-- Setting a name keeps the names there are, in their order. -/
theorem names_prefix_setBinding (x : String) (v : Value) (bindings : List (String × Value)) :
    bindings.map Prod.fst <+: (setBinding x v bindings).map Prod.fst := by
  induction bindings with
  | nil => exact List.nil_prefix
  | cons binding rest ih =>
      obtain ⟨y, w⟩ := binding
      rw [setBinding]
      by_cases hy : y = x
      · rw [if_pos hy]
        exact List.prefix_refl _
      · rw [if_neg hy]
        exact (List.prefix_cons_inj y).2 ih

-- ============================================================== stacks

/-- `s.Extends s'`: only the innermost scope of `s` has changed in `s'`, and
it has all its names still, before any new ones. -/
structure ScopeStack.Extends (s s' : ScopeStack) : Prop where
  outer : s'.outer = s.outer
  name : s'.innermost.name = s.innermost.name
  names : s.innermost.names <+: s'.innermost.names

namespace ScopeStack

theorem Extends.refl (s : ScopeStack) : s.Extends s :=
  ⟨rfl, rfl, List.prefix_refl _⟩

/-- What extends an extension extends the stack. -/
theorem Extends.trans {s s' s'' : ScopeStack} (h : s.Extends s') (h' : s'.Extends s'') :
    s.Extends s'' :=
  ⟨h'.outer.trans h.outer, h'.name.trans h.name, h.names.trans h'.names⟩

/-- Binding a name keeps the names in front of the new one. -/
theorem extends_assign (s : ScopeStack) (x : String) (v : Value) : s.Extends (s.assign x v) :=
  ⟨rfl, rfl, names_prefix_setBinding x v s.innermost.bindings⟩

theorem extends_declare (s : ScopeStack) (x : String) : s.Extends (s.declare x) := by
  rw [declare_eq]
  split
  · exact .refl s
  · exact s.extends_assign x .nil

/-- A stack that extends another is as deep. -/
theorem Extends.depth {s s' : ScopeStack} (h : s.Extends s') : s'.depth = s.depth := by
  unfold ScopeStack.depth
  rw [h.outer]

/-- Its scopes have the same names. -/
theorem Extends.scopeNames {s s' : ScopeStack} (h : s.Extends s') :
    s'.scopes.map Scope.name = s.scopes.map Scope.name := by
  unfold scopes inward
  rw [h.outer, List.map_reverse, List.map_cons, h.name, List.map_reverse, List.map_cons]

/-- Popping what a pushed scope has become gives back the stack as it was. -/
theorem Extends.pop {s s' : ScopeStack} {name : String} (h : (s.push name).Extends s') :
    s'.pop? = some (s'.innermost, s) := by
  unfold pop?
  rw [h.outer]
  rfl

end ScopeStack

-- ============================================================= machines

/-- The same relation where there may be no scopes at all. -/
def Environment.Extends : Environment → Environment → Prop
  | .stack s, .stack s' => s.Extends s'
  | .null, .null => True
  | _, _ => False

theorem Environment.Extends.refl (env : Environment) : env.Extends env := by
  cases env with
  | stack s => exact ScopeStack.Extends.refl s
  | null => trivial

theorem Environment.Extends.trans {a b c : Environment} (h : a.Extends b) (h' : b.Extends c) :
    a.Extends c := by
  match a, b, c, h, h' with
  | .stack _, .stack _, .stack _, h, h' => exact ScopeStack.Extends.trans h h'
  | .null, .null, .null, _, _ => trivial

namespace Machine

theorem extends_assign (m : Machine) (x : String) (v : Value) :
    m.env.Extends (m.assign x v).env := by
  unfold assign
  split
  · exact .refl _
  · next s henv =>
      rw [henv]
      exact s.extends_assign x v

theorem extends_declare (m : Machine) (x : String) : m.env.Extends (m.declare x).env := by
  unfold declare
  split
  · exact .refl _
  · next s henv =>
      split
      · exact .refl _
      · rw [henv]
        exact s.extends_declare x

end Machine

/-- Popping what a pushed machine has become succeeds and gives back the
environment as it was. -/
theorem Machine.pop_of_extends {m m' : Machine} {name : String}
    (h : (m.push name).env.Extends m'.env) : ∃ m'', m'.pop = (.ok (), m'') ∧ m''.env = m.env := by
  unfold push at h
  unfold pop
  match hm : m.env, hm' : m'.env with
  | .null, .null => exact ⟨m', rfl, hm'⟩
  | .stack s, .stack s' =>
      simp only [hm, hm', env_emit] at h
      simp only [ScopeStack.Extends.pop h]
      exact ⟨_, rfl, rfl⟩
  | .null, .stack s' =>
      simp only [hm, hm'] at h
      cases h
  | .stack s, .null =>
      simp only [hm, hm', env_emit] at h
      cases h

/-- Leaving a block undoes entering it. -/
theorem leaveBlock_eq {m : Machine} {r : Outcome Value}
    (h : (m.push blockName).env.Extends r.2.env) :
    (leaveBlock r).1 = r.1 ∧ (leaveBlock r).2.env = m.env := by
  obtain ⟨m', hpop, henv⟩ := Machine.pop_of_extends h
  unfold leaveBlock
  rw [hpop]
  exact ⟨rfl, henv⟩

-- ============================================================ evaluation

/-- An outcome from `m` that has left the scopes in order. -/
structure Tidy {α : Type} (m : Machine) (r : Outcome α) : Prop where
  env : m.env.Extends r.2.env
  fault : r.1 ≠ .error .globalPopped

namespace Tidy

variable {α β : Type} {m : Machine}

theorem ok (a : α) {m' : Machine} (h : m.env.Extends m'.env) : Tidy m (.ok a, m') :=
  ⟨h, fun heq => by cases heq⟩

/-- A computation in two parts is tidy if both parts are. -/
theorem andThen {r : Outcome α} {k : α → Machine → Outcome β} (h : Tidy m r)
    (hk : ∀ a m', Tidy m' (k a m')) : Tidy m (r.andThen k) := by
  rcases r with ⟨fault | a, m'⟩
  · exact ⟨h.env, fun heq => h.fault (by rw [Except.error.inj heq])⟩
  · exact ⟨h.env.trans (hk a m').env, (hk a m').fault⟩

/-- Looking up a name pops no scope. -/
theorem get (x : String) : Tidy m (m.get x, m) := by
  refine ⟨.refl _, ?_⟩
  unfold Machine.get
  split <;> (intro heq; cases heq)

theorem applied (r : Except TypeFault Value) : Tidy m (applied r m) := by
  unfold Lox.applied
  split
  · exact .ok _ (.refl _)
  · exact ⟨.refl _, fun heq => by cases heq⟩

theorem printed (v : Value) : Tidy m (printed v m) := by
  unfold Lox.printed
  split
  · exact .ok _ (.refl _)
  · exact ⟨.refl _, fun heq => by cases heq⟩

/-- An assignment statement is tidy, whether it finds its name or not. -/
theorem reassigned (x : String) (v : Value) : Tidy m (reassigned x v m) := by
  unfold Lox.reassigned
  split
  · exact .ok _ (m.extends_assign x v)
  · exact ⟨.refl _, fun heq => by cases heq⟩

/-- Leaving a block is tidy, since what ran inside was. -/
theorem leaveBlock {r : Outcome Value} (h : Tidy (m.push blockName) r) : Tidy m (leaveBlock r) := by
  obtain ⟨hfst, henv⟩ := leaveBlock_eq h.env
  refine ⟨?_, ?_⟩
  · rw [henv]
    exact .refl _
  · rw [hfst]
    exact h.fault

end Tidy

mutual

/-- Evaluation is tidy, by induction over the tree: only blocks push scopes, and
each pops its own. -/
theorem Node.tidy_eval : ∀ (n : Node) (m : Machine), Tidy m (n.eval m)
  | .literal v, _ => .ok v (.refl _)
  | .variable x, _ => .get x
  | .unary op operand, m => (Node.tidy_eval operand m).andThen fun _ _ => .applied _
  | .binary op left right, m =>
      (Node.tidy_eval left m).andThen fun _ m =>
        (Node.tidy_eval right m).andThen fun _ _ => .applied _
  | .assignment x value, m =>
      (Node.tidy_eval value m).andThen fun v m => .ok v (m.extends_assign x v)
  | .exprStmt expr, m => Node.tidy_eval expr m
  | .printStmt expr, m => (Node.tidy_eval expr m).andThen fun v _ => .printed v
  | .declare x, m => .ok Value.nil (m.extends_declare x)
  | .define x init, m =>
      (Node.tidy_eval init m).andThen fun v m =>
        .ok Value.nil ((m.extends_declare x).trans ((m.declare x).extends_assign x v))
  | .assignStmt x value, m => (Node.tidy_eval value m).andThen fun v _ => .reassigned x v
  | .block statements, m => (Node.tidy_evalAll statements .nil (m.push blockName)).leaveBlock
  | .unknown, _ => ⟨.refl _, fun heq => by cases heq⟩

theorem Node.tidy_evalAll : ∀ (ns : List Node) (last : Value) (m : Machine),
    Tidy m (Node.evalAll ns last m)
  | [], last, _ => .ok last (.refl _)
  | n :: ns, _, m => (Node.tidy_eval n m).andThen fun v m => Node.tidy_evalAll ns v m

end

-- ============================================================ the result

/-- A block leaves the environment exactly as it found it. -/
theorem Node.env_eval_block (ss : List Node) (m : Machine) :
    ((Node.block ss).eval m).2.env = m.env :=
  (leaveBlock_eq (Node.tidy_evalAll ss .nil (m.push blockName)).env).2

/-- Evaluating any tree on any stack of scopes, with whatever outcome, keeps
the depth, the names of the scopes and all scopes but the innermost, which
keeps its names; a block changes nothing; and the bottom scope is never
popped. -/
theorem eval_preserves_scopes (n : Node) (s : ScopeStack) (trace : Trace) :
    ∃ s', (n.eval ⟨.stack s, trace⟩).2.env = .stack s'
      ∧ s'.depth = s.depth
      ∧ s'.scopes.map Scope.name = s.scopes.map Scope.name
      ∧ s'.outer = s.outer
      ∧ s.innermost.names <+: s'.innermost.names
      ∧ (∀ ss, n = .block ss → s' = s)
      ∧ (n.eval ⟨.stack s, trace⟩).1 ≠ .error .globalPopped := by
  have htidy := n.tidy_eval ⟨.stack s, trace⟩
  have hextends := htidy.env
  cases henv : (n.eval ⟨.stack s, trace⟩).2.env with
  | null =>
      rw [henv] at hextends
      cases hextends
  | stack s' =>
      rw [henv] at hextends
      have hs : s.Extends s' := hextends
      refine ⟨s', rfl, hs.depth, hs.scopeNames, hs.outer, hs.names, ?_, htidy.fault⟩
      rintro ss rfl
      rw [Node.env_eval_block] at henv
      cases henv
      rfl

/-- A block that binds a name and then faults, inside a scope of its own:
what it has bound is gone, and the stack is as before. -/
theorem eval_faulting_block :
    let n : Node := .block [.define "x" (.literal .nil), .exprStmt (.variable "y")]
    let s : ScopeStack := ⟨⟨"block", [("a", .bool true)]⟩, [⟨"global", []⟩]⟩
    (n.eval ⟨.stack s, []⟩).1 = .error (.undefined "y")
      ∧ (n.eval ⟨.stack s, []⟩).2.env = .stack s := by
  intro n s
  obtain ⟨s', henv, -, -, -, -, hblock, -⟩ := eval_preserves_scopes n s []
  refine ⟨rfl, ?_⟩
  rw [henv, hblock _ rfl]

end Lox

/-
Equality is a congruence for evaluation.

Trees are equal here if they differ in literals only, and these are equal place
by place; scopes if they bind the same names in the same order to equal values.
Operators respect equality (`Operator.applyBinary_congr`), and so does each
primitive of the machine, the one that prints because equal values are
displayed alike. So each form of node does (`Node.Related.eval`), by one induction
over two equal trees: their evaluations go in step, and only equal values
stand in the same places.

What is logged of the scopes names them, and no name of a scope matters to
evaluation; hence only standard output is compared.
-/
import Lox.Proofs.Agreement
import Lox.Proofs.Equality
import Lox.Proofs.Kinds

namespace Lox

-- ================================================================= trees

/-- `n.Equal n'`: the trees differ only in literals, which are equal place by
place. -/
abbrev Node.Equal : Node → Node → Prop :=
  Node.Related fun v w => v.equal w = true

/-- The same of several trees, one by one. -/
abbrev Node.EqualAll : List Node → List Node → Prop :=
  Node.RelatedAll fun v w => v.equal w = true

-- ================================================================ scopes

/-- Names and values that are bound in the same order, the values equal. -/
def EqualBindings : List (String × Value) → List (String × Value) → Prop :=
  List.Forall₂ fun p q => p.1 = q.1 ∧ p.2.equal q.2 = true

/-- What is found in two places: equal values, or nothing. -/
def EqualFound : Option Value → Option Value → Prop :=
  Option.Rel fun v w => v.equal w = true

/-- Something is found in both places or in neither. -/
theorem EqualFound.isSome {a b : Option Value} (h : EqualFound a b) : a.isSome = b.isSome := by
  cases h <;> rfl

/-- Equal values bound to one name leave the bindings equal. -/
theorem EqualBindings.set {bs cs : List (String × Value)} (h : EqualBindings bs cs) (x : String)
    {v w : Value} (hv : v.equal w = true) :
    EqualBindings (setBinding x v bs) (setBinding x w cs) := by
  induction h with
  | nil => exact .cons ⟨rfl, hv⟩ .nil
  | @cons p q bs cs hpq h ih =>
      obtain ⟨y, b⟩ := p
      obtain ⟨z, c⟩ := q
      obtain ⟨rfl, hbc⟩ := hpq
      unfold setBinding
      split
      · exact .cons ⟨rfl, hv⟩ h
      · exact .cons ⟨rfl, hbc⟩ ih

/-- What equal bindings hold for a name is equal. -/
theorem EqualBindings.lookup {bs cs : List (String × Value)} (h : EqualBindings bs cs)
    (x : String) : EqualFound (bs.lookup x) (cs.lookup x) := by
  induction h with
  | nil => exact .none
  | @cons p q bs cs hpq h ih =>
      obtain ⟨y, b⟩ := p
      obtain ⟨z, c⟩ := q
      obtain ⟨rfl, hbc⟩ := hpq
      rw [List.lookup_cons, List.lookup_cons]
      dsimp only
      cases x == y with
      | true => exact .some hbc
      | false => exact ih

/-- Scopes that bind the same names in the same order to equal values. -/
def Scope.Equal (s t : Scope) : Prop :=
  EqualBindings s.bindings t.bindings

/-- Stacks of as many scopes, the scopes equal one by one. -/
structure ScopeStack.Equal (s t : ScopeStack) : Prop where
  innermost : s.innermost.Equal t.innermost
  outer : List.Forall₂ Scope.Equal s.outer t.outer

namespace ScopeStack.Equal

variable {s t : ScopeStack} (h : s.Equal t)

include h

/-- A new scope on equal stacks is the same on both. -/
theorem push (name : String) : (s.push name).Equal (t.push name) :=
  ⟨.nil, .cons h.innermost h.outer⟩

/-- Binding equal values keeps stacks equal. -/
theorem assign (x : String) {v w : Value} (hv : v.equal w = true) :
    (s.assign x v).Equal (t.assign x w) :=
  ⟨EqualBindings.set h.innermost x hv, h.outer⟩

/-- A declaration binds on both stacks or on neither. -/
theorem declare (x : String) : (s.declare x).Equal (t.declare x) := by
  have hbinds : s.bindsHere x = t.bindsHere x := (EqualBindings.lookup h.innermost x).isSome
  rw [ScopeStack.declare_eq, ScopeStack.declare_eq, hbinds]
  split
  · exact h
  · exact h.assign x (Value.equal_refl _)

/-- The innermost bindings of a name are equal, since the scopes are searched in
step. -/
theorem binding? (x : String) : EqualFound (s.binding? x) (t.binding? x) := by
  have hinward : List.Forall₂ Scope.Equal s.inward t.inward := .cons h.innermost h.outer
  unfold ScopeStack.binding?
  generalize s.inward = scopes, t.inward = scopes' at hinward
  induction hinward with
  | nil => exact .none
  | @cons a b as bs hab _ ih =>
      have hfound : EqualFound (a.find? x) (b.find? x) := EqualBindings.lookup hab x
      rw [List.findSome?_cons, List.findSome?_cons]
      generalize a.find? x = found, b.find? x = found' at hfound
      cases hfound with
      | some hv => exact .some hv
      | none => exact ih

theorem lookup (x : String) : EqualFound (s.lookup x) (t.lookup x) := by
  unfold ScopeStack.lookup
  generalize hs : s.binding? x = a
  generalize ht : t.binding? x = b
  have hbinding := h.binding? x
  rw [hs, ht] at hbinding
  cases hbinding with
  | none => exact .none
  | @some v w hv =>
      rcases Value.equal_iff.1 hv with rfl | ⟨x, y, rfl, rfl, -⟩
      · cases v with
        | absent => exact .none
        | nil | bool | string | real => exact .some hv
      · exact .some hv

end ScopeStack.Equal

-- ============================================================== machines

/-- Machines with equal scopes that have shown the same. -/
structure Machine.Equal (m m' : Machine) : Prop where
  env : m.env.Lifts ScopeStack.Equal m'.env
  stdout : m'.trace.stdout = m.trace.stdout

namespace Machine.Equal

variable {m m' : Machine} (h : m.Equal m')

include h

/-- A call that keeps stacks equal keeps machines equal; what it logs is no
matter. -/
theorem call (c c' : ScopeCall)
    (hc : ∀ s t : ScopeStack, s.Equal t → (s.call c).Equal (t.call c')) :
    (m.call c).Equal (m'.call c') := by
  refine ⟨?_, ?_⟩
  · rw [m.env_call, m'.env_call]
    exact h.env.calls hc
  · rw [(m'.logs_call c').stdout, (m.logs_call c).stdout, h.stdout]

theorem push (name : String) : (m.push name).Equal (m'.push name) :=
  h.call (.push name) (.push name) fun _ _ hst => hst.push name

theorem assign (x : String) {v w : Value} (hv : v.equal w = true) :
    (m.assign x v).Equal (m'.assign x w) :=
  h.call (.assign x v) (.assign x w) fun _ _ hst => hst.assign x hv

theorem declare (x : String) : (m.declare x).Equal (m'.declare x) :=
  h.call (.declare x) (.declare x) fun _ _ hst => hst.declare x

/-- Equal machines find equal values for a name. -/
theorem lookup (x : String) : EqualFound (m.lookup x) (m'.lookup x) := by
  obtain ⟨env, trace⟩ := m
  obtain ⟨env', trace'⟩ := m'
  match env, env', h.env with
  | .stack s, .stack t, hst => exact ScopeStack.Equal.lookup hst x
  | .null, .null, _ => exact .none

end Machine.Equal

-- ============================================================= outcomes

/-- Faults that are the same but for equal values. -/
inductive Fault.Equal : Fault → Fault → Prop where
  | same (f : Fault) : Equal f f
  | illTyped {f g : TypeFault} : f.Equal g → Equal (.illTyped f) (.illTyped g)

/-- Equal faults are of one class. -/
theorem Fault.Equal.toClass {f g : Fault} (h : f.Equal g) : f.toClass = g.toClass := by
  cases h <;> rfl

/-- And they have one message. -/
theorem Fault.Equal.message {f g : Fault} (h : f.Equal g) : f.message = g.message := by
  cases h with
  | same => rfl
  | illTyped hfg => exact hfg.message

/-- Outcomes with equal answers, on equal machines. -/
structure Outcome.Equal (r r' : Outcome Value) : Prop where
  answer : EqualAnswers Fault.Equal r.1 r'.1
  machine : r.2.Equal r'.2

namespace Outcome.Equal

variable {m m' : Machine}

theorem ok {v v' : Value} (hv : v.equal v' = true) (h : m.Equal m') :
    Equal (.ok v, m) (.ok v', m') :=
  ⟨.ok hv, h⟩

theorem error (fault : Fault) (h : m.Equal m') : Equal (.error fault, m) (.error fault, m') :=
  ⟨.error (.same fault), h⟩

/-- Going on from equal outcomes gives equal outcomes, if the rest respects
equality. -/
theorem andThen {r r' : Outcome Value} {k k' : Value → Machine → Outcome Value} (h : r.Equal r')
    (hk : ∀ v v' m m', v.equal v' = true → m.Equal m' → (k v m).Equal (k' v' m')) :
    (r.andThen k).Equal (r'.andThen k') := by
  obtain ⟨answer, m⟩ := r
  obtain ⟨answer', m'⟩ := r'
  obtain ⟨hanswer, hm⟩ := h
  cases hanswer with
  | ok hv => exact hk _ _ m m' hv hm
  | error hfault => exact ⟨.error hfault, hm⟩

/-- Equal answers of an operator make equal outcomes. -/
theorem applied {r r' : Except TypeFault Value} (hr : EqualAnswers TypeFault.Equal r r')
    (h : m.Equal m') : Equal (applied r m) (applied r' m') := by
  cases hr with
  | ok hv => exact .ok hv h
  | error hfault => exact ⟨.error (.illTyped hfault), h⟩

/-- Equal values are printed alike. -/
theorem printed {v v' : Value} (hv : v.equal v' = true) (h : m.Equal m') :
    Equal (printed v m) (printed v' m') := by
  unfold Lox.printed
  rw [Value.display_congr hv]
  split
  · refine .ok (Value.equal_refl _) ⟨h.env, ?_⟩
    show Trace.stdout (m'.trace ++ _) = Trace.stdout (m.trace ++ _)
    rw [Trace.stdout_append, Trace.stdout_append, h.stdout]
  · exact .error _ h

/-- A name has equal values on equal machines, or is missed on both. -/
theorem get (x : String) (h : m.Equal m') : Equal (m.get x, m) (m'.get x, m') := by
  have hfound := h.lookup x
  refine ⟨?_, h⟩
  unfold Machine.get
  generalize m.lookup x = a at hfound
  generalize m'.lookup x = b at hfound
  cases hfound with
  | some hv => exact .ok hv
  | none => exact .error (.same _)

/-- An assignment statement succeeds on both machines or on neither. -/
theorem reassigned (x : String) {v v' : Value} (hv : v.equal v' = true) (h : m.Equal m') :
    Equal (reassigned x v m) (reassigned x v' m') := by
  unfold Lox.reassigned Machine.isDefined
  rw [(h.lookup x).isSome]
  split
  · exact .ok hv (h.assign x hv)
  · exact .error _ h

/-- Blocks are left with the scopes that were there before. -/
theorem leaveBlock {r r' : Outcome Value} (hm : m.Equal m') (h : r.Equal r')
    (hr : (m.push blockName).env.Extends r.2.env)
    (hr' : (m'.push blockName).env.Extends r'.2.env) :
    (leaveBlock r).Equal (leaveBlock r') := by
  obtain ⟨hfst, henv⟩ := leaveBlock_eq hr
  obtain ⟨hfst', henv'⟩ := leaveBlock_eq hr'
  refine ⟨?_, ?_, ?_⟩
  · rw [hfst, hfst']
    exact h.answer
  · rw [henv, henv']
    exact hm.env
  · rw [(logs_leaveBlock r').stdout, (logs_leaveBlock r).stdout, h.machine.stdout]

end Outcome.Equal

-- ============================================================ evaluation

mutual

/-- Equal machines evaluate equal trees in step. -/
theorem Node.Related.eval {n n' : Node} (hn : n.Equal n') (m m' : Machine) (h : m.Equal m') :
    (n.eval m).Equal (n'.eval m') := by
  match hn with
  | .literal hv => exact .ok hv h
  | .variable x => exact .get x h
  | .unary op he =>
      exact (he.eval m m' h).andThen fun _ _ _ _ hv h => .applied (op.applyUnary_congr hv) h
  | .binary op hl hr =>
      apply (hl.eval m m' h).andThen
      intro l l' m m' hv h
      exact (hr.eval m m' h).andThen fun _ _ _ _ hw h => .applied (op.applyBinary_congr hv hw) h
  | .assignment x he =>
      exact (he.eval m m' h).andThen fun _ _ _ _ hv h => .ok hv (h.assign x hv)
  | .exprStmt he => exact he.eval m m' h
  | .printStmt he => exact (he.eval m m' h).andThen fun _ _ _ _ hv h => .printed hv h
  | .declare x => exact .ok (Value.equal_refl _) (h.declare x)
  | .define x he =>
      exact (he.eval m m' h).andThen fun _ _ _ _ hv h =>
        .ok (Value.equal_refl _) ((h.declare x).assign x hv)
  | .assignStmt x he => exact (he.eval m m' h).andThen fun _ _ _ _ hv h => .reassigned x hv h
  | .block hss =>
      exact .leaveBlock h (hss.evalAll (Value.equal_refl _) _ _ (h.push blockName))
        (Node.tidy_evalAll _ .nil _).env (Node.tidy_evalAll _ .nil _).env
  | .unknown => exact .error _ h

theorem Node.RelatedAll.evalAll {ns ns' : List Node} (hns : Node.EqualAll ns ns')
    {last last' : Value} (hlast : last.equal last' = true) (m m' : Machine) (h : m.Equal m') :
    (Node.evalAll ns last m).Equal (Node.evalAll ns' last' m') := by
  match hns with
  | .nil => exact .ok hlast h
  | .cons hs hss =>
      exact (hs.eval m m' h).andThen fun _ _ m m' hv h => hss.evalAll hv m m' h

end

-- ============================================================= the result

/-- Equal outcomes are equal values, or faults that a reader cannot tell
apart. -/
theorem Outcome.Equal.answers {r r' : Outcome Value} (h : r.Equal r') :
    (∃ v v', r.1 = .ok v ∧ r'.1 = .ok v' ∧ v.equal v' = true)
      ∨ ∃ f f', r.1 = .error f ∧ r'.1 = .error f' ∧ f.toClass = f'.toClass
          ∧ f.message = f'.message := by
  obtain ⟨answer, m⟩ := r
  obtain ⟨answer', m'⟩ := r'
  cases h.answer with
  | @ok v v' hv => exact .inl ⟨v, v', rfl, rfl, hv⟩
  | @error f f' hf => exact .inr ⟨f, f', rfl, rfl, hf.toClass, hf.message⟩

/-- Equality of the language identifies what is not a number, and nothing else.
It is an equivalence, inequality is its negation, and it is a congruence for
evaluation: equal trees on equal scopes give equal values, or fail in one class
with one message; they print the same, and leave equal scopes. -/
theorem equality_is_congruence {n n' : Node} {s s' : ScopeStack} (hn : n.Equal n')
    (hs : s.Equal s') (trace trace' : Trace) :
    (Equivalence fun v w : Value => v.equal w = true)
      ∧ (∀ v w : Value, BinaryOp.equalTo.apply v w = .ok (.bool (v.equal w))
          ∧ BinaryOp.notEqualTo.apply v w = .ok (.bool !(v.equal w))
          ∧ (v.equal w = true
              ↔ v = w ∨ ∃ x y, v = .real x ∧ w = .real y ∧ x.isNaN = true ∧ y.isNaN = true))
      ∧ (let r := n.eval ⟨.stack s, trace⟩
        let r' := n'.eval ⟨.stack s', trace'⟩
        ((∃ v v', r.1 = .ok v ∧ r'.1 = .ok v' ∧ v.equal v' = true)
            ∨ ∃ f f', r.1 = .error f ∧ r'.1 = .error f' ∧ f.toClass = f'.toClass
                ∧ f.message = f'.message)
          ∧ (∃ shown, r.2.trace.stdout = trace.stdout ++ shown
              ∧ r'.2.trace.stdout = trace'.stdout ++ shown)
          ∧ ∃ t t', r.2.env = .stack t ∧ r'.2.env = .stack t' ∧ t.Equal t') := by
  refine ⟨Value.equal_equivalence, fun v w => ⟨rfl, rfl, Value.equal_iff⟩, ?_⟩
  have hequal := hn.eval ⟨.stack s, []⟩ ⟨.stack s', []⟩ ⟨hs, rfl⟩
  -- the effects so far take no part, so both sides start from none
  rw [n.eval_trace, n'.eval_trace]
  intro r r'
  have hmachine := hequal.machine
  obtain ⟨t, ht⟩ := n.exists_stack_eval s []
  obtain ⟨t', ht'⟩ := n'.exists_stack_eval s' []
  refine ⟨hequal.answers, ⟨(n.eval ⟨.stack s, []⟩).2.trace.stdout, Trace.stdout_append _ _, ?_⟩,
    t, t', ht, ht', ?_⟩
  · rw [← hmachine.stdout]
    exact Trace.stdout_append _ _
  · have henv := hmachine.env
    rwa [ht, ht'] at henv

/-- Two bit patterns that are not numbers, one with a sign, bound to a name that
a block prints, compares with the other, and then negates in a sum. -/
theorem equality_is_congruence_nan :
    let x : Double := ⟨0x7FF8000000000000⟩
    let y : Double := ⟨0xFFF0000000000001⟩
    let body (v : Value) : Node := .block [
      .printStmt (.variable "a"),
      .printStmt (.binary (.binary .equalTo) (.variable "a") (.literal v)),
      .binary (.binary .plus) (.unary (.unary .negative) (.variable "a")) (.literal (.string "b"))]
    let stack (v : Value) : ScopeStack := { innermost := ⟨"global", [("a", v)]⟩ }
    let n := body (.real x)
    let n' := body (.real y)
    let s := stack (.real y)
    let s' := stack (.real x)
    n.Equal n' ∧ s.Equal s' ∧ x ≠ y
      ∧ (∃ f f', (n.eval ⟨.stack s, []⟩).1 = .error f ∧ (n'.eval ⟨.stack s', []⟩).1 = .error f'
          ∧ f.message = "Cannot add nan and \"b\"" ∧ f'.message = f.message)
      ∧ (n.eval ⟨.stack s, []⟩).2.trace.stdout = "NaN\ntrue\n"
      ∧ (n'.eval ⟨.stack s', []⟩).2.trace.stdout = "NaN\ntrue\n" := by
  intro x y body stack n n' s s'
  have hxy : (Value.real x).equal (.real y) = true := by decide
  have hyx : (Value.real y).equal (.real x) = true := by decide
  have hn : n.Equal n' :=
    .block (.cons (.printStmt (.variable _))
      (.cons (.printStmt (.binary _ (.variable _) (.literal hxy)))
        (.cons (.binary _ (.unary _ (.variable _)) (.literal (by decide))) .nil)))
  have hs : s.Equal s' := ⟨.cons ⟨rfl, hyx⟩ .nil, .nil⟩
  obtain ⟨-, -, hanswer, ⟨shown, hshown, hshown'⟩, -⟩ := equality_is_congruence hn hs [] []
  have hfault : (n.eval ⟨.stack s, []⟩).1
      = .error (.illTyped (.cannotAdd (.real y.neg) (.string "b"))) := by decide +kernel
  have hstdout : (n.eval ⟨.stack s, []⟩).2.trace.stdout = "NaN\ntrue\n" := by decide +kernel
  refine ⟨hn, hs, by decide, ?_, hstdout, ?_⟩
  · rcases hanswer with ⟨v, -, hv, -⟩ | ⟨f, f', hf, hf', -, hmessage⟩
    · rw [hfault] at hv
      cases hv
    · refine ⟨f, f', hf, hf', ?_, hmessage.symm⟩
      rw [hfault] at hf
      cases hf
      decide +kernel
  · rw [hshown', ← hshown]
    exact hstdout

end Lox

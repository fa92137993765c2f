/-
Evaluation is decided by the kinds of values.

Which operator accepts which operands, which names are bound and in what
order, how many lines are printed, and whether and how evaluation fails: all
of that can be told from the kinds of the values alone. The abstract
evaluator `Node.predict` works on kinds, over scopes that bind names to
kinds. Forgetting the values and then predicting is the same as evaluating
and then forgetting the values (`Node.kinds_eval`): each primitive of the
machine commutes with `kinds`, and so each form of node does.

Two runs that agree in kinds are then one prediction. The literals of a tree
matter to it by their kinds only (`Node.Related.predict_eq`).

A block needs no pop in the abstract: it leaves the scopes as they were, by
what is known about scoping.
-/
import Lox.Proofs.Effects
import Lox.Proofs.Scoping

namespace Lox

-- ================================================================= kinds

/-- The kinds of value. -/
inductive ValueKind where
  | nil | bool | string | real | absent
deriving DecidableEq, Repr

def Value.kind : Value → ValueKind
  | .nil => .nil
  | .bool _ => .bool
  | .string _ => .string
  | .real _ => .real
  | .absent => .absent

/-- A fault without the values in it. -/
inductive FaultClass where
  | typeError
  | nameError (name : String)
  | scopeError
  | malformed (m : Malformed)
deriving DecidableEq, Repr

def Fault.toClass : Fault → FaultClass
  | .illTyped _ => .typeError
  | .undefined x => .nameError x
  | .globalPopped => .scopeError
  | .malformed m => .malformed m

-- ============================================================= operators

/-- The kind of the result of a prefix operator; none if it objects. -/
def UnaryOp.resultKind : UnaryOp → ValueKind → Option ValueKind
  | .group, k => some k
  | .positive, .real => some .real
  | .negative, .real => some .real
  | .not, .bool => some .bool
  | .not, .real => some .bool
  | .not, .nil => some .bool
  | _, _ => none

/-- The kind of the result where both operands must be of one kind. -/
def resultOfBoth (operand result left right : ValueKind) : Option ValueKind :=
  if left = operand ∧ right = operand then some result else none

/-- The kind of the result of a binary operator; none if it objects. -/
def BinaryOp.resultKind (op : BinaryOp) (left right : ValueKind) : Option ValueKind :=
  match op with
  | .equalTo | .notEqualTo => some .bool
  | .plus => (resultOfBoth .string .string left right).or (resultOfBoth .real .real left right)
  | .minus | .times | .div => resultOfBoth .real .real left right
  | .lessThan | .greaterThan | .lessThanOrEqualTo | .greaterThanOrEqualTo =>
      resultOfBoth .real .bool left right
  | .and | .or => resultOfBoth .bool .bool left right

def Operator.unaryKind : Operator → ValueKind → Option ValueKind
  | .unary op, k => op.resultKind k
  | _, _ => none

def Operator.binaryKind : Operator → ValueKind → ValueKind → Option ValueKind
  | .binary op, left, right => op.resultKind left right
  | _, _, _ => none

/-- The kind of what an operator gives; none for an objection. -/
def appliedKind : Except TypeFault Value → Option ValueKind
  | .ok v => some v.kind
  | .error _ => none

/-- Whether an operator on numbers objects, and the kind of what it gives, is
decided by the kinds. -/
theorem appliedKind_onReals {f : Double → Double → Value} {fault : Value → Value → TypeFault}
    {k : ValueKind} (hf : ∀ x y, (f x y).kind = k) (left right : Value) :
    appliedKind (Value.onReals f fault left right) = resultOfBoth .real k left.kind right.kind := by
  cases left with
  | real x =>
      cases right with
      | real y => exact congrArg some (hf x y)
      | nil | bool | string | absent => rfl
  | nil | bool | string | absent => rfl

theorem appliedKind_onBooleans (f : Bool → Bool → Bool) (fault : Value → Value → TypeFault)
    (left right : Value) :
    appliedKind (Value.onBooleans f fault left right)
      = resultOfBoth .bool .bool left.kind right.kind := by
  cases left <;> cases right <;> rfl

/-- The same of adding, which takes numbers or strings. -/
theorem appliedKind_add (left right : Value) :
    appliedKind (left.add right) = BinaryOp.plus.resultKind left.kind right.kind := by
  cases left <;> cases right <;> rfl

/-- The kind that a prefix operator gives is the one foreseen. -/
theorem appliedKind_applyUnary (op : Operator) (v : Value) :
    appliedKind (op.applyUnary v) = op.unaryKind v.kind := by
  cases op with
  | unary op => cases op <;> cases v <;> rfl
  | binary op => rfl
  | assign => rfl

/-- So is the kind that a binary operator gives. -/
theorem appliedKind_applyBinary (op : Operator) (left right : Value) :
    appliedKind (op.applyBinary left right) = op.binaryKind left.kind right.kind := by
  cases op with
  | unary op => rfl
  | assign => rfl
  | binary op =>
      cases op with
      | equalTo | notEqualTo => rfl
      | plus => exact appliedKind_add left right
      | and | or => exact appliedKind_onBooleans _ _ left right
      | minus | times | div | lessThan | greaterThan | lessThanOrEqualTo | greaterThanOrEqualTo =>
          apply appliedKind_onReals
          intro x y
          rfl

-- ================================================================ scopes

section

variable {α β : Type} (f : α → β)

/-- A scope with something else bound to its names. -/
def Scope.map (s : Scope α) : Scope β :=
  { name := s.name, bindings := s.bindings.map (Prod.map id f) }

/-- A stack with something else bound to its names. -/
def ScopeStack.map (s : ScopeStack α) : ScopeStack β :=
  { innermost := s.innermost.map f, outer := s.outer.map (Scope.map f) }

/-- Setting a binding commutes with the map. -/
theorem map_setBinding (x : String) (v : α) (bindings : List (String × α)) :
    (setBinding x v bindings).map (Prod.map id f)
      = setBinding x (f v) (bindings.map (Prod.map id f)) := by
  induction bindings with
  | nil => rfl
  | cons binding rest ih =>
      obtain ⟨y, w⟩ := binding
      by_cases hy : y = x
      · simp [setBinding, hy]
      · simpa [setBinding, hy] using ih

/-- What a name is bound to afterwards is what it was bound to, mapped. -/
theorem Scope.find?_map (s : Scope α) (x : String) : (s.map f).find? x = (s.find? x).map f := by
  obtain ⟨name, bindings⟩ := s
  unfold find? map
  induction bindings with
  | nil => rfl
  | cons binding rest ih =>
      obtain ⟨y, w⟩ := binding
      by_cases hy : x = y
      · simp [hy]
      · have hne : (x == y) = false := by simpa using hy
        simpa [List.lookup_cons, hne] using ih

namespace ScopeStack

variable (s : ScopeStack α) (x : String)

theorem map_push (name : String) : (s.push name).map f = (s.map f).push name := rfl

/-- Binding a name commutes with the map. -/
theorem map_assign (v : α) : (s.assign x v).map f = (s.map f).assign x (f v) := by
  simp only [map, assign, Scope.set, Scope.map, map_setBinding]

/-- Which names are bound does not depend on what is bound to them. -/
theorem bindsHere_map : (s.map f).bindsHere x = s.bindsHere x := by
  unfold bindsHere
  rw [map, Scope.find?_map, Option.isSome_map]

/-- So does binding a name that is not bound yet. -/
theorem map_assignNew (v : α) : (s.assignNew x v).map f = (s.map f).assignNew x (f v) := by
  unfold assignNew
  rw [bindsHere_map, ← map_assign]
  split <;> rfl

/-- The innermost binding of a name is found in the same scope. -/
theorem binding?_map : (s.map f).binding? x = (s.binding? x).map f := by
  unfold binding? inward map
  rw [← List.map_cons (f := Scope.map f), List.findSome?_map, List.map_findSome?]
  congr 1
  funext scope
  exact scope.find?_map f x

end ScopeStack

end

/-- A stack of scopes with the kinds of the values in place of the values. -/
def ScopeStack.kinds (s : ScopeStack) : ScopeStack ValueKind :=
  s.map Value.kind

/-- The kind of a name's value; none if it has no value. -/
def kindOf? (s : ScopeStack ValueKind) (x : String) : Option ValueKind :=
  (s.binding? x).filter (· ≠ .absent)

/-- A name has a kind exactly if it has a value, and then the kind of the
value. -/
theorem kindOf?_kinds (s : ScopeStack) (x : String) :
    kindOf? s.kinds x = (s.lookup x).map Value.kind := by
  unfold kindOf? ScopeStack.kinds ScopeStack.lookup
  rw [ScopeStack.binding?_map]
  cases s.binding? x with
  | none => rfl
  | some v => cases v <;> rfl

-- ============================================================== machines

def Effect.isOut : Effect → Bool
  | .out _ => true
  | _ => false

/-- How many prints there are among some effects. -/
def Trace.prints (t : Trace) : Nat :=
  t.countP Effect.isOut

/-- What prediction works on: the scopes, if there are any, and the number of
prints so far. -/
structure KindMachine where
  scopes : Option (ScopeStack ValueKind)
  prints : Nat := 0
deriving DecidableEq, Repr

def Environment.kinds : Environment → Option (ScopeStack ValueKind)
  | .stack s => some s.kinds
  | .null => none

def Machine.kinds (m : Machine) : KindMachine :=
  ⟨m.env.kinds, m.trace.prints⟩

/-- What is predicted: a kind or the class of a fault, and the machine
afterwards. -/
abbrev Prediction := Except FaultClass ValueKind × KindMachine

def Prediction.andThen (r : Prediction) (k : ValueKind → KindMachine → Prediction) : Prediction :=
  match r with
  | (.ok kind, m) => k kind m
  | (.error fault, m) => (.error fault, m)

namespace KindMachine

def push (m : KindMachine) (name : String) : KindMachine :=
  { m with scopes := m.scopes.map (·.push name) }

def assign (m : KindMachine) (x : String) (k : ValueKind) : KindMachine :=
  { m with scopes := m.scopes.map (·.assign x k) }

def declare (m : KindMachine) (x : String) : KindMachine :=
  { m with scopes := m.scopes.map (·.assignNew x .nil) }

def lookup (m : KindMachine) (x : String) : Option ValueKind :=
  m.scopes.bind (kindOf? · x)

end KindMachine

-- ============================================================ prediction

/-- The answer where an operator gives a kind or objects. -/
def orTypeError : Option ValueKind → Except FaultClass ValueKind
  | some k => .ok k
  | none => .error .typeError

/-- The answer where a name has a value or not. -/
def orNameError (x : String) : Option ValueKind → Except FaultClass ValueKind
  | some k => .ok k
  | none => .error (.nameError x)

def predictPrint (k : ValueKind) (m : KindMachine) : Prediction :=
  if k = .absent then (.error (.malformed .absentValue), m)
  else (.ok .nil, { m with prints := m.prints + 1 })

def predictReassign (x : String) (k : ValueKind) (m : KindMachine) : Prediction :=
  if (m.lookup x).isSome then (.ok k, m.assign x k) else (.error (.nameError x), m)

mutual

/-- Evaluation on kinds. -/
def Node.predict : Node → KindMachine → Prediction
  | .literal v, m => (.ok v.kind, m)
  | .variable x, m => (orNameError x (m.lookup x), m)
  | .unary op operand, m =>
      (Node.predict operand m).andThen fun k m => (orTypeError (op.unaryKind k), m)
  | .binary op left right, m =>
      (Node.predict left m).andThen fun l m =>
        (Node.predict right m).andThen fun r m => (orTypeError (op.binaryKind l r), m)
  | .assignment x value, m =>
      (Node.predict value m).andThen fun k m => (.ok k, m.assign x k)
  | .exprStmt expr, m => Node.predict expr m
  | .printStmt expr, m => (Node.predict expr m).andThen predictPrint
  | .declare x, m => (.ok .nil, m.declare x)
  | .define x init, m =>
      (Node.predict init m).andThen fun k m => (.ok .nil, (m.declare x).assign x k)
  | .assignStmt x value, m => (Node.predict value m).andThen (predictReassign x)
  | .block statements, m =>
      let r := Node.predictAll statements .nil (m.push blockName)
      (r.1, { m with prints := r.2.prints })
  | .unknown, m => (.error (.malformed .unknownNode), m)

/-- Evaluation of statements in order, on kinds. -/
def Node.predictAll : List Node → ValueKind → KindMachine → Prediction
  | [], last, m => (.ok last, m)
  | node :: rest, _, m => (Node.predict node m).andThen fun k m => Node.predictAll rest k m

end

-- ============================================================ simulation

def Outcome.kinds (r : Outcome Value) : Prediction :=
  (match r.1 with
    | .ok v => .ok v.kind
    | .error fault => .error fault.toClass, r.2.kinds)

namespace Machine

variable (m : Machine) (x : String)

/-- Records are not foreseen. -/
theorem kinds_debug (logger : Logger) (text : String) :
    (m.emit (.debug logger text)).kinds = m.kinds := by
  simp [kinds, emit, Trace.prints, Effect.debug, Effect.isOut]

/-- A line on standard output is one print. -/
theorem kinds_outLine (text : String) :
    (m.emit (.outLine text)).kinds = { m.kinds with prints := m.kinds.prints + 1 } := by
  simp [kinds, emit, Trace.prints, Effect.outLine, Effect.isOut]

/-- A new scope is foreseen as it is. -/
theorem kinds_push (name : String) : (m.push name).kinds = m.kinds.push name := by
  unfold push
  split
  · next henv => simp [kinds, henv, KindMachine.push, Environment.kinds]
  · next s henv =>
      rw [kinds_debug]
      simp [kinds, henv, KindMachine.push, Environment.kinds, ScopeStack.kinds,
        ScopeStack.map_push]

/-- So is a binding, by the kind of its value. -/
theorem kinds_assign (v : Value) : (m.assign x v).kinds = m.kinds.assign x v.kind := by
  unfold assign
  split
  · next henv => simp [kinds, henv, KindMachine.assign, Environment.kinds]
  · next s henv =>
      simp [kinds, henv, KindMachine.assign, Environment.kinds, ScopeStack.kinds,
        ScopeStack.map_assign]

theorem kinds_declare : (m.declare x).kinds = m.kinds.declare x := by
  unfold declare
  split
  · next henv => simp [kinds, henv, KindMachine.declare, Environment.kinds]
  · next s henv =>
      have hs : (s.declare x).kinds = s.kinds.assignNew x .nil := s.map_assignNew _ x .nil
      split
      · next hbinds =>
          rw [ScopeStack.declare_eq, if_pos hbinds] at hs
          simp [kinds, henv, KindMachine.declare, Environment.kinds, ← hs]
      · rw [kinds_debug]
        simp [kinds, henv, KindMachine.declare, Environment.kinds, hs]

/-- A name is foreseen to have a value exactly if it has one. -/
theorem kinds_lookup : m.kinds.lookup x = (m.lookup x).map Value.kind := by
  unfold lookup
  split
  · next henv => simp [kinds, henv, KindMachine.lookup, Environment.kinds]
  · next s henv => simp [kinds, henv, KindMachine.lookup, Environment.kinds, kindOf?_kinds]

end Machine

/-- Going on after success is foreseen if both parts are. -/
theorem Outcome.kinds_andThen (r : Outcome Value) {k : Value → Machine → Outcome Value}
    {j : ValueKind → KindMachine → Prediction} (h : ∀ v m, (k v m).kinds = j v.kind m.kinds) :
    (r.andThen k).kinds = r.kinds.andThen j := by
  rcases r with ⟨fault | v, m⟩
  · rfl
  · exact h v m

/-- An operator is foreseen by its kinds. -/
theorem kinds_applied (r : Except TypeFault Value) (m : Machine) :
    (applied r m).kinds = (orTypeError (appliedKind r), m.kinds) := by
  cases r <;> rfl

/-- Printing succeeds for every kind but one. -/
theorem kinds_printed (v : Value) (m : Machine) :
    (printed v m).kinds = predictPrint v.kind m.kinds := by
  cases v with
  | absent => rfl
  | nil | bool | string | real =>
      simp only [printed, Value.display, Outcome.kinds, Machine.kinds_outLine]
      rfl

/-- Which names are missed is foreseen. -/
theorem kinds_get (m : Machine) (x : String) :
    Outcome.kinds (m.get x, m) = (orNameError x (m.kinds.lookup x), m.kinds) := by
  unfold Machine.get
  rw [m.kinds_lookup x]
  cases m.lookup x <;> rfl

theorem kinds_reassigned (x : String) (v : Value) (m : Machine) :
    (reassigned x v m).kinds = predictReassign x v.kind m.kinds := by
  unfold reassigned predictReassign Machine.isDefined
  rw [m.kinds_lookup x, Option.isSome_map, ← m.kinds_assign x v]
  split <;> rfl

/-- Leaving a block forgets its scope and keeps its prints. -/
theorem kinds_leaveBlock {m : Machine} {r : Outcome Value} (h : Tidy (m.push blockName) r) :
    (leaveBlock r).kinds = (r.kinds.1, { m.kinds with prints := r.kinds.2.prints }) := by
  obtain ⟨hfst, henv⟩ := leaveBlock_eq h.env
  have hprints : (leaveBlock r).2.trace.prints = r.2.trace.prints := by
    have hpop : (r.2.pop).2.trace.prints = r.2.trace.prints := by
      unfold Machine.pop
      split
      · rfl
      · split
        · rfl
        · exact congrArg KindMachine.prints (Machine.kinds_debug _ _ _)
    rw [← hpop, leaveBlock]
    rcases r.2.pop with ⟨fault | _, m'⟩ <;> rfl
  unfold Outcome.kinds Machine.kinds
  rw [hfst, henv, hprints]

mutual

/-- Evaluation commutes with forgetting the values. -/
theorem Node.kinds_eval : ∀ (n : Node) (m : Machine), (n.eval m).kinds = n.predict m.kinds
  | .literal v, m => rfl
  | .variable x, m => kinds_get m x
  | .unary op operand, m => by
      simp only [Node.eval, Node.predict]
      rw [← Node.kinds_eval operand m]
      apply Outcome.kinds_andThen
      intro v m
      rw [kinds_applied, appliedKind_applyUnary]
  | .binary op left right, m => by
      simp only [Node.eval, Node.predict]
      rw [← Node.kinds_eval left m]
      apply Outcome.kinds_andThen
      intro l m
      rw [← Node.kinds_eval right m]
      apply Outcome.kinds_andThen
      intro r m
      rw [kinds_applied, appliedKind_applyBinary]
  | .assignment x value, m => by
      simp only [Node.eval, Node.predict]
      rw [← Node.kinds_eval value m]
      apply Outcome.kinds_andThen
      intro v m
      rw [← m.kinds_assign x v]
      rfl
  | .exprStmt expr, m => Node.kinds_eval expr m
  | .printStmt expr, m => by
      simp only [Node.eval, Node.predict]
      rw [← Node.kinds_eval expr m]
      exact Outcome.kinds_andThen _ kinds_printed
  | .declare x, m => by
      simp only [Node.eval, Node.predict]
      rw [← m.kinds_declare x]
      rfl
  | .define x init, m => by
      simp only [Node.eval, Node.predict]
      rw [← Node.kinds_eval init m]
      apply Outcome.kinds_andThen
      intro v m
      rw [← m.kinds_declare x, ← (m.declare x).kinds_assign x v]
      rfl
  | .assignStmt x value, m => by
      simp only [Node.eval, Node.predict]
      rw [← Node.kinds_eval value m]
      exact Outcome.kinds_andThen _ (kinds_reassigned x)
  | .block ss, m => by
      simp only [Node.eval, Node.predict]
      rw [kinds_leaveBlock (Node.tidy_evalAll ss .nil (m.push blockName)),
        Node.kinds_evalAll ss .nil (m.push blockName), m.kinds_push]
      rfl
  | .unknown, m => rfl

theorem Node.kinds_evalAll : ∀ (ns : List Node) (last : Value) (m : Machine),
    (Node.evalAll ns last m).kinds = Node.predictAll ns last.kind m.kinds
  | [], last, m => rfl
  | n :: ns, last, m => by
      simp only [Node.evalAll, Node.predictAll]
      rw [← Node.kinds_eval n m]
      apply Outcome.kinds_andThen
      intro v m
      exact Node.kinds_evalAll ns v m

end

-- =============================================================== literals

mutual

/-- `Node.Related R n n'`: the trees differ only in literals, and those are
related place by place. -/
inductive Node.Related (R : Value → Value → Prop) : Node → Node → Prop where
  | literal {v w : Value} : R v w → Related R (.literal v) (.literal w)
  | variable (x : String) : Related R (.variable x) (.variable x)
  | unary {e e' : Node} (op : Operator) :
      Related R e e' → Related R (.unary op e) (.unary op e')
  | binary {l l' r r' : Node} (op : Operator) :
      Related R l l' → Related R r r' → Related R (.binary op l r) (.binary op l' r')
  | assignment {e e' : Node} (x : String) :
      Related R e e' → Related R (.assignment x e) (.assignment x e')
  | exprStmt {e e' : Node} : Related R e e' → Related R (.exprStmt e) (.exprStmt e')
  | printStmt {e e' : Node} : Related R e e' → Related R (.printStmt e) (.printStmt e')
  | declare (x : String) : Related R (.declare x) (.declare x)
  | define {e e' : Node} (x : String) : Related R e e' → Related R (.define x e) (.define x e')
  | assignStmt {e e' : Node} (x : String) :
      Related R e e' → Related R (.assignStmt x e) (.assignStmt x e')
  | block {ss ss' : List Node} : RelatedAll R ss ss' → Related R (.block ss) (.block ss')
  | unknown : Related R .unknown .unknown

/-- The same of several trees, one by one. -/
inductive Node.RelatedAll (R : Value → Value → Prop) : List Node → List Node → Prop where
  | nil : RelatedAll R [] []
  | cons {s s' : Node} {ss ss' : List Node} :
      Related R s s' → RelatedAll R ss ss' → RelatedAll R (s :: ss) (s' :: ss')

end

/-- `n.Recast n'`: the trees differ only in literals, which are of the same
kind place by place. -/
abbrev Node.Recast : Node → Node → Prop :=
  Node.Related fun v w => v.kind = w.kind

mutual

/-- Literals matter to a prediction by their kinds only. -/
theorem Node.Related.predict_eq {R : Value → Value → Prop}
    (hR : ∀ v w, R v w → v.kind = w.kind) {n n' : Node} (h : Node.Related R n n')
    (m : KindMachine) : n.predict m = n'.predict m := by
  match h with
  | .literal hv => simp only [Node.predict, hR _ _ hv]
  | .variable x => rfl
  | .unary op he => simp only [Node.predict, he.predict_eq hR]
  | .binary op hl hr => simp only [Node.predict, hl.predict_eq hR, hr.predict_eq hR]
  | .assignment x he => simp only [Node.predict, he.predict_eq hR]
  | .exprStmt he => simp only [Node.predict, he.predict_eq hR]
  | .printStmt he => simp only [Node.predict, he.predict_eq hR]
  | .declare x => rfl
  | .define x he => simp only [Node.predict, he.predict_eq hR]
  | .assignStmt x he => simp only [Node.predict, he.predict_eq hR]
  | .block hss => simp only [Node.predict, hss.predictAll_eq hR]
  | .unknown => rfl

theorem Node.RelatedAll.predictAll_eq {R : Value → Value → Prop}
    (hR : ∀ v w, R v w → v.kind = w.kind) {ns ns' : List Node} (h : Node.RelatedAll R ns ns')
    (last : ValueKind) (m : KindMachine) :
    Node.predictAll ns last m = Node.predictAll ns' last m := by
  match h with
  | .nil => rfl
  | .cons hs hss => simp only [Node.predictAll, hs.predict_eq hR, hss.predictAll_eq hR]

end

-- ============================================================= the result

/-- Prints are counted in order. -/
theorem Trace.prints_append (t u : Trace) : (t ++ u).prints = t.prints + u.prints :=
  List.countP_append

/-- Evaluation on scopes leaves scopes. -/
theorem Node.exists_stack_eval (n : Node) (s : ScopeStack) (trace : Trace) :
    ∃ t, (n.eval ⟨.stack s, trace⟩).2.env = .stack t := by
  have hextends := (n.tidy_eval ⟨.stack s, trace⟩).env
  cases henv : (n.eval ⟨.stack s, trace⟩).2.env with
  | stack t => exact ⟨t, rfl⟩
  | null =>
      rw [henv] at hextends
      cases hextends

/-- The class of a fault is foreseen exactly if there is such a fault. -/
theorem Outcome.kinds_eq_error_iff {r : Outcome Value} {c : FaultClass} :
    r.kinds.1 = .error c ↔ ∃ fault, r.1 = .error fault ∧ fault.toClass = c := by
  rcases r with ⟨fault | v, m⟩
  · constructor
    · intro h
      exact ⟨fault, rfl, Except.error.inj h⟩
    · rintro ⟨fault', h, rfl⟩
      cases h
      rfl
  · constructor
    · intro h
      cases h
    · rintro ⟨fault, h, -⟩
      cases h

/-- Outcomes that look the same on kinds both succeed, or both fail. -/
theorem Outcome.kinds_cases {r r' : Outcome Value} (h : r.kinds.1 = r'.kinds.1) :
    (∃ v v', r.1 = .ok v ∧ r'.1 = .ok v' ∧ v.kind = v'.kind)
      ∨ ∃ f f', r.1 = .error f ∧ r'.1 = .error f' ∧ f.toClass = f'.toClass := by
  rcases r with ⟨f | v, m⟩ <;> rcases r' with ⟨f' | v', m'⟩
  · exact .inr ⟨f, f', rfl, rfl, Except.error.inj h⟩
  · cases h
  · cases h
  · exact .inl ⟨v, v', rfl, rfl, Except.ok.inj h⟩

/-- Trees that differ by literals of the same kind, on scopes that bind the
same names in the same order to values of the same kinds: both evaluations
give values of one kind, or both fail in one class and, if a name is
undefined, for one name; they print as often, and leave scopes that agree
again. The abstract evaluator foresees both classes of fault exactly. -/
theorem eval_depends_on_kinds {n n' : Node} {s s' : ScopeStack} (hn : n.Recast n')
    (hs : s.kinds = s'.kinds) (trace trace' : Trace) :
    let r := n.eval ⟨.stack s, trace⟩
    let r' := n'.eval ⟨.stack s', trace'⟩
    let foreseen := n.predict ⟨some s.kinds, 0⟩
    ((∃ v v', r.1 = .ok v ∧ r'.1 = .ok v' ∧ v.kind = v'.kind)
        ∨ ∃ f f', r.1 = .error f ∧ r'.1 = .error f' ∧ f.toClass = f'.toClass)
      ∧ (∃ k, r.2.trace.prints = trace.prints + k ∧ r'.2.trace.prints = trace'.prints + k)
      ∧ (∃ t t', r.2.env = .stack t ∧ r'.2.env = .stack t' ∧ t.kinds = t'.kinds)
      ∧ ((∃ f, r.1 = .error (.illTyped f)) ↔ foreseen.1 = .error .typeError)
      ∧ ∀ x, r.1 = .error (.undefined x) ↔ foreseen.1 = .error (.nameError x) := by
  have hforeseen : (n.eval ⟨.stack s, []⟩).kinds = n.predict ⟨some s.kinds, 0⟩ :=
    n.kinds_eval ⟨.stack s, []⟩
  have hforeseen' : (n'.eval ⟨.stack s', []⟩).kinds = n.predict ⟨some s.kinds, 0⟩ := by
    rw [hn.predict_eq (fun _ _ => id), hs]
    exact n'.kinds_eval ⟨.stack s', []⟩
  have hkinds := hforeseen.trans hforeseen'.symm
  have hanswers : (n.eval ⟨.stack s, []⟩).kinds.1 = (n'.eval ⟨.stack s', []⟩).kinds.1 :=
    congrArg Prod.fst hkinds
  have hmachines : (n.eval ⟨.stack s, []⟩).2.kinds = (n'.eval ⟨.stack s', []⟩).2.kinds :=
    congrArg Prod.snd hkinds
  -- the effects so far take no part, so everything is said of runs from none
  rw [n.eval_trace, n'.eval_trace]
  intro r r' foreseen
  refine ⟨Outcome.kinds_cases hanswers, ?_, ?_, ?_, ?_⟩
  · refine ⟨(n.eval ⟨.stack s, []⟩).2.trace.prints, Trace.prints_append _ _, ?_⟩
    have hprints : (n'.eval ⟨.stack s', []⟩).2.trace.prints
        = (n.eval ⟨.stack s, []⟩).2.trace.prints :=
      (congrArg KindMachine.prints hmachines).symm
    rw [← hprints]
    exact Trace.prints_append _ _
  · obtain ⟨t, ht⟩ := n.exists_stack_eval s []
    obtain ⟨t', ht'⟩ := n'.exists_stack_eval s' []
    refine ⟨t, t', ht, ht', ?_⟩
    have hscopes := congrArg KindMachine.scopes hmachines
    simp only [Machine.kinds, ht, ht', Environment.kinds] at hscopes
    exact Option.some.inj hscopes
  · show _ ↔ (n.predict ⟨some s.kinds, 0⟩).1 = _
    rw [← hforeseen, Outcome.kinds_eq_error_iff]
    constructor
    · rintro ⟨f, hf⟩
      exact ⟨_, hf, rfl⟩
    · rintro ⟨fault, hfault, hclass⟩
      cases fault with
      | illTyped f => exact ⟨f, hfault⟩
      | undefined | globalPopped | malformed => cases hclass
  · intro x
    show _ ↔ (n.predict ⟨some s.kinds, 0⟩).1 = _
    rw [← hforeseen, Outcome.kinds_eq_error_iff]
    constructor
    · intro hf
      exact ⟨_, hf, rfl⟩
    · rintro ⟨fault, hfault, hclass⟩
      cases fault with
      | undefined y =>
          cases hclass
          exact hfault
      | illTyped | globalPopped | malformed => cases hclass

/-- A block that prints a quotient and then adds it to a name bound to a
string: dividing by zero or not, it prints once and fails for the kinds. -/
theorem eval_depends_on_kinds_quotient :
    let body (x y : Double) : Node :=
      .block [.define "a" (.binary (.binary .div) (.literal (.real x)) (.literal (.real y))),
        .printStmt (.unary (.unary .not) (.variable "a")),
        .printStmt (.binary (.binary .plus) (.variable "a") (.variable "b"))]
    let n := body ⟨0x3ff0000000000000⟩ ⟨0⟩
    let n' := body ⟨0⟩ ⟨0x4000000000000000⟩
    let s : ScopeStack := { innermost := ⟨"global", [("b", .string "one")]⟩ }
    let s' : ScopeStack := { innermost := ⟨"global", [("b", .string "two")]⟩ }
    n.Recast n' ∧ s.kinds = s'.kinds
      ∧ (∃ f, (n.eval ⟨.stack s, []⟩).1 = .error (.illTyped f))
      ∧ ∃ k, (n.eval ⟨.stack s, []⟩).2.trace.prints = Trace.prints [] + k
          ∧ (n'.eval ⟨.stack s', []⟩).2.trace.prints = Trace.prints [] + k := by
  intro body n n' s s'
  have hn : n.Recast n' :=
    .block (.cons (.define _ (.binary _ (.literal rfl) (.literal rfl)))
      (.cons (.printStmt (.unary _ (.variable _)))
        (.cons (.printStmt (.binary _ (.variable _) (.variable _))) .nil)))
  have hs : s.kinds = s'.kinds := rfl
  have h := eval_depends_on_kinds hn hs [] []
  exact ⟨hn, hs, h.2.2.2.1.2 rfl, h.2.1⟩

end Lox

/-
Evaluation sees the names of a tree only.

`s.Agrees names t` says of two stacks of scopes, of whatever depths, that a
lookup of any of the names finds the same in both, and that their innermost
scopes bind these names alike. The second part is there for the writes: a
declaration asks the innermost scope alone, and an assignment hides what lies
further out.

Each primitive of the machine keeps the agreement, for names among them, and
so does going on after an outcome; then each form of node does
(`Node.agrees_eval`). A block hides the innermost scopes under new ones, which
bind nothing, and gives back the stacks as they were. The other names are
not written to, because a tree binds names of its own only
(`Node.binders_subset`).
-/
import Lox.Proofs.Binders
import Lox.Proofs.Scopeless

namespace Lox

-- ================================================================= names

namespace Node

/-- The name that a node has of its own, apart from those in its parts. -/
def ownName? : Node → Option String
  | .variable x | .declare x => some x
  | .assignment x _ | .define x _ | .assignStmt x _ => some x
  | _ => none

/-- The names that occur in a tree. -/
def identifiers (n : Node) : List String :=
  n.subtrees.filterMap ownName?

/-- The names that occur in some trees. -/
def identifiersAll (ns : List Node) : List String :=
  (subtreesAll ns).filterMap ownName?

theorem identifiers_binary (op : Operator) (left right : Node) :
    (Node.binary op left right).identifiers = left.identifiers ++ right.identifiers :=
  List.filterMap_append

theorem identifiersAll_cons (n : Node) (ns : List Node) :
    identifiersAll (n :: ns) = n.identifiers ++ identifiersAll ns :=
  List.filterMap_append

/-- A tree binds names of its own only. -/
theorem binders_subset : ∀ n : Node, n.binders ⊆ n.identifiers
  | .literal _ | .variable _ | .block _ | .unknown => List.nil_subset _
  | .unary _ e | .exprStmt e | .printStmt e => binders_subset e
  | .binary op left right => by
      rw [binders, identifiers_binary]
      exact List.append_subset.2
        ⟨List.subset_append_of_subset_left _ (binders_subset left),
          List.subset_append_of_subset_right _ (binders_subset right)⟩
  | .declare x => List.Subset.refl _
  | .assignment x e | .define x e | .assignStmt x e => by
      have he := binders_subset e
      intro y hy
      rcases List.mem_append.1 hy with hy | hy
      · exact List.mem_cons_of_mem _ (he hy)
      · rw [List.mem_singleton.1 hy]
        exact List.mem_cons_self ..

end Node

-- ============================================================= agreement

/-- Stacks of scopes in which the same is found under the given names, and
whose innermost scopes bind these names alike. -/
structure ScopeStack.Agrees (names : List String) (s t : ScopeStack) : Prop where
  lookup : ∀ x ∈ names, s.lookup x = t.lookup x
  innermost : ∀ x ∈ names, s.innermost.find? x = t.innermost.find? x

namespace ScopeStack

variable {names : List String} {s t : ScopeStack}

/-- A new scope on stacks that agree is the same on both. -/
theorem Agrees.push (h : s.Agrees names t) (name : String) :
    (s.push name).Agrees names (t.push name) :=
  ⟨h.lookup, fun _ _ => rfl⟩

/-- Binding a name to one value keeps stacks in agreement. -/
theorem Agrees.assign (h : s.Agrees names t) (x : String) (v : Value) :
    (s.assign x v).Agrees names (t.assign x v) := by
  constructor
  · intro y hy
    rw [lookup_assign, lookup_assign, h.lookup y hy]
  · intro y hy
    rw [find?_assign, find?_assign, h.innermost y hy]

/-- So does declaring one of the names, since both stacks bind it or neither
does. -/
theorem Agrees.declare (h : s.Agrees names t) {x : String} (hx : x ∈ names) :
    (s.declare x).Agrees names (t.declare x) := by
  have hbinds : s.bindsHere x = t.bindsHere x := by
    unfold bindsHere
    rw [h.innermost x hx]
  rw [ScopeStack.declare_eq, ScopeStack.declare_eq, hbinds]
  split
  · exact h
  · exact h.assign x .nil

end ScopeStack

/-- The same where there may be no scopes at all. -/
def Environment.Agrees (names : List String) : Environment → Environment → Prop :=
  Environment.Lifts (ScopeStack.Agrees names)

/-- One of the names has the same value on both machines. -/
theorem Environment.Agrees.lookup_eq {names : List String} {m m' : Machine}
    (h : m.env.Agrees names m'.env) {x : String} (hx : x ∈ names) : m.lookup x = m'.lookup x := by
  obtain ⟨env, trace⟩ := m
  obtain ⟨env', trace'⟩ := m'
  match env, env', h with
  | .stack s, .stack t, h => exact ScopeStack.Agrees.lookup h x hx
  | .null, .null, _ => rfl

/-- Machines whose environments agree on the given names, and that have shown
the same. -/
structure Machine.Agrees (names : List String) (m m' : Machine) : Prop where
  env : m.env.Agrees names m'.env
  stdout : m'.trace.stdout = m.trace.stdout

namespace Machine

/-- A call shows at most a record. -/
theorem logs_call (m : Machine) (c : ScopeCall) : m.Logs (m.call c) := by
  cases c with
  | push name => exact m.logs_push name
  | pop => exact m.logs_pop
  | declare x => exact m.logs_declare x
  | assign x v => exact m.logs_assign x v
  | get x | lookup x | isDefined x => exact .refl m

namespace Agrees

variable {names : List String} {m m' : Machine} (h : m.Agrees names m')

include h

/-- A call that keeps stacks in agreement keeps machines so. -/
theorem call {c : ScopeCall}
    (hc : ∀ s t : ScopeStack, s.Agrees names t → (s.call c).Agrees names (t.call c)) :
    (m.call c).Agrees names (m'.call c) := by
  refine ⟨?_, ?_⟩
  · rw [m.env_call, m'.env_call]
    exact h.env.calls hc
  · rw [(m'.logs_call c).stdout, (m.logs_call c).stdout, h.stdout]

theorem push (name : String) : (m.push name).Agrees names (m'.push name) :=
  h.call (c := .push name) fun _ _ hst => hst.push name

theorem assign (x : String) (v : Value) : (m.assign x v).Agrees names (m'.assign x v) :=
  h.call (c := .assign x v) fun _ _ hst => hst.assign x v

theorem declare {x : String} (hx : x ∈ names) : (m.declare x).Agrees names (m'.declare x) :=
  h.call (c := .declare x) fun _ _ hst => hst.declare hx

end Agrees

end Machine

-- ============================================================ evaluation

/-- Outcomes that are the same, on machines that agree on the given names. -/
structure Outcome.Agrees (names : List String) (r r' : Outcome Value) : Prop where
  answer : r'.1 = r.1
  machine : r.2.Agrees names r'.2

namespace Outcome.Agrees

variable {names : List String} {m m' : Machine}

theorem same (answer : Except Fault Value) (h : m.Agrees names m') :
    Agrees names (answer, m) (answer, m') :=
  ⟨rfl, h⟩

/-- Going on from outcomes that agree keeps them so if the rest does. -/
theorem andThen {r r' : Outcome Value} {k : Value → Machine → Outcome Value}
    (h : r.Agrees names r') (hk : ∀ v m m', m.Agrees names m' → (k v m).Agrees names (k v m')) :
    (r.andThen k).Agrees names (r'.andThen k) := by
  obtain ⟨answer, m⟩ := r
  obtain ⟨answer', m'⟩ := r'
  obtain ⟨hanswer, hm⟩ := h
  cases hanswer
  cases answer with
  | ok v => exact hk v m m' hm
  | error fault => exact .same _ hm

/-- An operator gives the same answer on both. -/
theorem applied (r : Except TypeFault Value) (h : m.Agrees names m') :
    Agrees names (applied r m) (applied r m') := by
  cases r with
  | ok v => exact .same _ h
  | error fault => exact .same _ h

/-- A value is printed alike on both. -/
theorem printed (v : Value) (h : m.Agrees names m') :
    Agrees names (printed v m) (printed v m') := by
  unfold Lox.printed
  split
  · refine .same _ ⟨h.env, ?_⟩
    show Trace.stdout (m'.trace ++ _) = Trace.stdout (m.trace ++ _)
    rw [Trace.stdout_append, Trace.stdout_append, h.stdout]
  · exact .same _ h

/-- One of the names is found on both machines or on neither. -/
theorem get {x : String} (hx : x ∈ names) (h : m.Agrees names m') :
    Agrees names (m.get x, m) (m'.get x, m') := by
  refine ⟨?_, h⟩
  unfold Machine.get
  rw [h.env.lookup_eq hx]

/-- An assignment statement to one of the names succeeds on both machines or on
neither. -/
theorem reassigned {x : String} (hx : x ∈ names) (v : Value) (h : m.Agrees names m') :
    Agrees names (reassigned x v m) (reassigned x v m') := by
  unfold Lox.reassigned Machine.isDefined
  rw [h.env.lookup_eq hx]
  split
  · exact .same _ (h.assign x v)
  · exact .same _ h

/-- Blocks are left with the scopes that were there before. -/
theorem leaveBlock {r r' : Outcome Value} (hm : m.Agrees names m')
    (h : r.Agrees names r') (hr : (m.push blockName).env.Extends r.2.env)
    (hr' : (m'.push blockName).env.Extends r'.2.env) :
    (leaveBlock r).Agrees names (leaveBlock r') := by
  obtain ⟨hfst, henv⟩ := leaveBlock_eq hr
  obtain ⟨hfst', henv'⟩ := leaveBlock_eq hr'
  refine ⟨?_, ?_, ?_⟩
  · rw [hfst, hfst', h.answer]
  · rw [henv, henv']
    exact hm.env
  · rw [(logs_leaveBlock r').stdout, (logs_leaveBlock r).stdout, h.machine.stdout]

end Outcome.Agrees

mutual

/-- Machines that agree on the names of a tree evaluate it alike. -/
theorem Node.agrees_eval {names : List String} : ∀ (n : Node), n.identifiers ⊆ names →
    ∀ m m', m.Agrees names m' → (n.eval m).Agrees names (n.eval m')
  | .literal v, _, _, _, h => .same (.ok v) h
  | .variable x, hn, _, _, h => .get (hn (List.mem_singleton_self x)) h
  | .unary op operand, hn, m, m', h =>
      (Node.agrees_eval operand hn m m' h).andThen fun v _ _ h => .applied (op.applyUnary v) h
  | .binary op left right, hn, m, m', h => by
      rw [identifiers_binary, List.append_subset] at hn
      apply (Node.agrees_eval left hn.1 m m' h).andThen
      intro l m m' h
      exact (Node.agrees_eval right hn.2 m m' h).andThen fun r _ _ h =>
        .applied (op.applyBinary l r) h
  | .assignment x value, hn, m, m', h =>
      (Node.agrees_eval value (List.subset_of_cons_subset hn) m m' h).andThen fun v _ _ h =>
        .same (.ok v) (h.assign x v)
  | .exprStmt expr, hn, m, m', h => Node.agrees_eval expr hn m m' h
  | .printStmt expr, hn, m, m', h =>
      (Node.agrees_eval expr hn m m' h).andThen fun v _ _ h => .printed v h
  | .declare x, hn, _, _, h => .same (.ok .nil) (h.declare (hn (List.mem_singleton_self x)))
  | .define x init, hn, m, m', h =>
      (Node.agrees_eval init (List.subset_of_cons_subset hn) m m' h).andThen fun v _ _ h =>
        .same (.ok .nil) ((h.declare (hn (List.mem_cons_self ..))).assign x v)
  | .assignStmt x value, hn, m, m', h =>
      (Node.agrees_eval value (List.subset_of_cons_subset hn) m m' h).andThen fun v _ _ h =>
        .reassigned (hn (List.mem_cons_self ..)) v h
  | .block ss, hn, m, m', h =>
      .leaveBlock h (Node.agrees_evalAll ss hn .nil _ _ (h.push blockName))
        (Node.tidy_evalAll ss .nil _).env (Node.tidy_evalAll ss .nil _).env
  | .unknown, _, _, _, h => .same _ h

theorem Node.agrees_evalAll {names : List String} : ∀ (ns : List Node),
    Node.identifiersAll ns ⊆ names → ∀ last m m', m.Agrees names m' →
      (Node.evalAll ns last m).Agrees names (Node.evalAll ns last m')
  | [], _, last, _, _, h => .same (.ok last) h
  | n :: ns, hns, _, m, m', h => by
      rw [Node.identifiersAll_cons, List.append_subset] at hns
      apply (Node.agrees_eval n hns.1 m m' h).andThen
      intro v m m' h
      exact Node.agrees_evalAll ns hns.2 v m m' h

end

-- ============================================================= the result

/-- No scope binds a name that does not occur in the tree otherwise than
before. -/
theorem Node.find?_eval (n : Node) {m : Machine} {s s' : ScopeStack} (hs : m.env = .stack s)
    (hs' : (n.eval m).2.env = .stack s') {x : String} (hx : x ∉ n.identifiers) :
    s'.inward.map (·.find? x) = s.inward.map (·.find? x) := by
  have hbinds := n.binds_completed m
  rw [hs, hs'] at hbinds
  have hbound : x ∉ (n.completed m).flatMap binders := fun hmem =>
    hx (n.binders_subset ((n.binders_completed m).subset hmem))
  unfold ScopeStack.inward
  rw [List.map_cons, List.map_cons, ScopeStack.Binds.others hbinds x hbound,
    ScopeStack.Binds.outer hbinds]

/-- Evaluation sees the names of a tree only. On two stacks of scopes in which
the same is found under these names, and whose innermost scopes bind them
alike, a tree has the same value or the same fault, and shows the same on
standard output; the stacks it leaves agree in the same way. Other names are
bound in every scope as before. -/
theorem eval_sees_names (n : Node) (s t : ScopeStack) (trace trace' : Trace)
    (h : s.Agrees n.identifiers t) :
    let r := n.eval ⟨.stack s, trace⟩
    let r' := n.eval ⟨.stack t, trace'⟩
    r'.1 = r.1
      ∧ (∃ shown, r.2.trace.stdout = trace.stdout ++ shown
          ∧ r'.2.trace.stdout = trace'.stdout ++ shown)
      ∧ ∃ s' t', r.2.env = .stack s' ∧ r'.2.env = .stack t' ∧ s'.Agrees n.identifiers t'
          ∧ ∀ x, x ∉ n.identifiers →
              s'.inward.map (·.find? x) = s.inward.map (·.find? x)
                ∧ t'.inward.map (·.find? x) = t.inward.map (·.find? x) := by
  intro r r'
  have hagrees := n.agrees_eval (List.Subset.refl _) ⟨.stack s, []⟩ ⟨.stack t, []⟩ ⟨h, rfl⟩
  -- the effects so far take no part, so both sides start from none
  have hr : r = (n.eval ⟨.stack s, []⟩).after trace := n.eval_trace _ _
  have hr' : r' = (n.eval ⟨.stack t, []⟩).after trace' := n.eval_trace _ _
  have hs' : r.2.env = .stack (s.callAll (n.calls ⟨.stack s, trace⟩)) := n.env_eval _
  have ht' : r'.2.env = .stack (t.callAll (n.calls ⟨.stack t, trace'⟩)) := n.env_eval _
  refine ⟨?_, ⟨(n.eval ⟨.stack s, []⟩).2.trace.stdout, ?_, ?_⟩, _, _, hs', ht', ?_, ?_⟩
  · rw [hr, hr']
    exact hagrees.answer
  · rw [hr]
    exact Trace.stdout_append _ _
  · rw [hr', ← hagrees.machine.stdout]
    exact Trace.stdout_append _ _
  · have henv : r.2.env.Agrees n.identifiers r'.2.env := by
      rw [hr, hr']
      exact hagrees.machine.env
    rwa [hs', ht'] at henv
  · intro x hx
    exact ⟨n.find?_eval rfl hs' hx, n.find?_eval rfl ht' hx⟩

/-- A block that assigns to a name of an outer scope and prints it, on stacks of
two and of three scopes that bind other names besides. -/
theorem eval_sees_names_block :
    let n : Node := .block [
      .assignStmt "a" (.binary (.binary .plus) (.variable "a") (.variable "b")),
      .printStmt (.variable "a"), .printStmt (.unary (.unary .negative) (.variable "a"))]
    let s : ScopeStack := ⟨⟨"block", [("c", .nil)]⟩,
      [⟨"global", [("a", .string "x"), ("b", .string "y")]⟩]⟩
    let t : ScopeStack := ⟨⟨"inner", []⟩, [⟨"block", [("b", .string "y")]⟩,
      ⟨"global", [("b", .nil), ("d", .nil), ("a", .string "x")]⟩]⟩
    s.Agrees n.identifiers t ∧ n.identifiers = ["a", "a", "b", "a", "a"]
      ∧ (n.eval ⟨.stack t, []⟩).1 = (n.eval ⟨.stack s, []⟩).1
      ∧ (n.eval ⟨.stack t, []⟩).2.trace.stdout = "xy\n" := by
  intro n s t
  have hagrees : s.Agrees n.identifiers t := ⟨by decide, by decide⟩
  obtain ⟨hanswer, ⟨shown, hs, ht⟩, -⟩ := eval_sees_names n s t [] [] hagrees
  refine ⟨hagrees, rfl, hanswer, ?_⟩
  rw [ht, ← hs]
  decide +kernel

end Lox

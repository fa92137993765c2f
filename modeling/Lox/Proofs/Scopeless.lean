/-
Evaluation without scopes, and what it tells about evaluation with them.

Without scopes nothing is stored and nothing found, so the first name that
is looked up ends the evaluation. Until then both evaluations go in step:
the same values, the same faults, the same on standard output. From there on
the one with scopes may go any way, but what it has shown stays.

`r.Foretells r'` says so of two outcomes, and each form of node keeps it
(`Node.foretells_eval`); the step that matters is going on after an outcome,
where the side with scopes may run on alone and only adds to what is shown.

Which trees look names up can be read off the tree: those that contain a
variable or an assignment statement (`Node.isLookup`). An evaluation without
scopes that gives a value has met none, and one that misses a name has met
one (`Node.tells_eval`).
-/
import Lox.Proofs.Effects
import Lox.Proofs.WellTyped

namespace Lox

-- ========================================================= without scopes

namespace Machine

variable {m : Machine} (h : m.env = .null)

include h

theorem get_null (x : String) : m.get x = .error (.undefined x) := by
  unfold get lookup
  rw [h]

theorem assign_null (x : String) (v : Value) : m.assign x v = m := by
  unfold assign
  rw [h]

theorem declare_null (x : String) : m.declare x = m := by
  unfold declare
  rw [h]

theorem push_null (name : String) : m.push name = m := by
  unfold push
  rw [h]

theorem reassigned_null (x : String) (v : Value) :
    reassigned x v m = (.error (.undefined x), m) := by
  unfold reassigned isDefined lookup
  rw [h]
  rfl

end Machine

theorem leaveBlock_null {r : Outcome Value} (h : r.2.env = .null) : leaveBlock r = r := by
  unfold leaveBlock Machine.pop
  rw [h]

-- ============================================================= simulation

/-- What does not read the effects so far only adds to what is shown. -/
theorem Outcome.stdout_of_after {α : Type} {f : Machine → Outcome α}
    (h : ∀ m t, f (m.after t) = (f m).after t) (m : Machine) :
    ∃ more, (f m).2.trace.stdout = m.trace.stdout ++ more := by
  have hm := h { m with trace := [] } m.trace
  rw [← m.eq_after] at hm
  rw [hm]
  exact ⟨_, Trace.stdout_append _ _⟩

/-- Machines that have shown the same, the first of them without scopes. -/
structure Machine.Shadows (m m' : Machine) : Prop where
  env : m.env = .null
  stdout : m'.trace.stdout = m.trace.stdout

/-- What an outcome without scopes says about one with scopes: they are the
same and have shown the same, unless the first misses a name; then the second
has shown at least as much. -/
inductive Outcome.Foretells {α : Type} : Outcome α → Outcome α → Prop where
  | same (answer : Except Fault α) {m m' : Machine} :
      m.Shadows m' → Foretells (answer, m) (answer, m')
  | missed (x : String) {m : Machine} {r' : Outcome α} (more : String) :
      m.env = .null → r'.2.trace.stdout = m.trace.stdout ++ more →
      Foretells (.error (.undefined x), m) r'

namespace Outcome.Foretells

variable {α β : Type} {m m' : Machine}

/-- What foretells has no scopes in the end. -/
theorem null {r r' : Outcome α} (h : r.Foretells r') : r.2.env = .null := by
  cases h with
  | same _ hm => exact hm.env
  | missed _ _ hm _ => exact hm

/-- Short of a missed name, both outcomes are the same. -/
theorem agree {r r' : Outcome α} (h : r.Foretells r') (hr : ∀ x, r.1 ≠ .error (.undefined x)) :
    r'.1 = r.1 ∧ r'.2.trace.stdout = r.2.trace.stdout := by
  cases h with
  | same _ hm => exact ⟨rfl, hm.stdout⟩
  | missed x _ _ _ => exact absurd rfl (hr x)

/-- What is shown alone is shown first in scopes. -/
theorem exists_more {r r' : Outcome α} (h : r.Foretells r') :
    ∃ more, r'.2.trace.stdout = r.2.trace.stdout ++ more := by
  cases h with
  | same _ hm => exact ⟨"", by rw [String.append_empty]; exact hm.stdout⟩
  | missed _ more _ hmore => exact ⟨more, hmore⟩

/-- A computation in two parts foretells if both parts do and the second does
not look at what was shown. -/
theorem andThen {r r' : Outcome α} {k : α → Machine → Outcome β} (h : r.Foretells r')
    (hk : ∀ a m m', m.Shadows m' → (k a m).Foretells (k a m'))
    (hafter : ∀ a m t, k a (m.after t) = (k a m).after t) :
    (r.andThen k).Foretells (r'.andThen k) := by
  cases h with
  | @same answer m m' hm =>
      cases answer with
      | ok a => exact hk a m m' hm
      | error fault => exact .same _ hm
  | @missed x m r' more hm hmore =>
      rcases r' with ⟨fault | a, m'⟩
      · exact .missed x more hm hmore
      · obtain ⟨more', hmore'⟩ := Outcome.stdout_of_after (hafter a) m'
        refine .missed x (more ++ more') hm ?_
        rw [Outcome.andThen_ok, hmore', show m'.trace.stdout = _ from hmore, String.append_assoc]

/-- An operator gives the same answer, scopes or not. -/
theorem applied (r : Except TypeFault Value) (h : m.Shadows m') :
    Foretells (applied r m) (applied r m') := by
  cases r with
  | ok v => exact .same _ h
  | error fault => exact .same _ h

/-- A value is printed the same. -/
theorem printed (v : Value) (h : m.Shadows m') : Foretells (printed v m) (printed v m') := by
  unfold Lox.printed
  split
  · next text _ =>
      refine .same _ ⟨h.env, ?_⟩
      show Trace.stdout (m'.trace ++ _) = Trace.stdout (m.trace ++ _)
      rw [Trace.stdout_append, Trace.stdout_append, h.stdout]
  · exact .same _ h

/-- An assignment statement misses its name alone, whatever it does in
scopes. -/
theorem reassigned (x : String) (v : Value) (h : m.Shadows m') :
    Foretells (reassigned x v m) (reassigned x v m') := by
  rw [Machine.reassigned_null h.env]
  refine .missed x "" h.env ?_
  unfold Lox.reassigned
  split
  · rw [(m'.logs_assign x v).stdout, h.stdout, String.append_empty]
  · rw [h.stdout, String.append_empty]

/-- A block is left the same, if leaving it succeeds in scopes. -/
theorem leaveBlock {r r' : Outcome Value} (h : r.Foretells r')
    (hr' : (leaveBlock r').1 = r'.1) : r.Foretells (leaveBlock r') := by
  cases h with
  | @same answer m m' hm =>
      have hleft : Lox.leaveBlock (answer, m') = (answer, (Lox.leaveBlock (answer, m')).2) :=
        Prod.ext hr' rfl
      rw [hleft]
      exact .same answer ⟨hm.env, (logs_leaveBlock (answer, m')).stdout.trans hm.stdout⟩
  | missed x more hm hmore => exact .missed x more hm ((logs_leaveBlock _).stdout.trans hmore)

end Outcome.Foretells

mutual

/-- Evaluation without scopes foretells evaluation in any environment. -/
theorem Node.foretells_eval : ∀ (n : Node) (m m' : Machine), m.Shadows m' →
    (n.eval m).Foretells (n.eval m')
  | .literal v, _, _, h => .same (.ok v) h
  | .variable x, m, m', h => by
      simp only [Node.eval]
      rw [Machine.get_null h.env]
      exact .missed x "" h.env (by rw [h.stdout, String.append_empty])
  -- later steps only add output, so a name missed in one part ends the whole
  | .unary op operand, m, m', h =>
      (Node.foretells_eval operand m m' h).andThen (fun v _ _ h => .applied (op.applyUnary v) h)
        fun v m t => applied_after m t _
  | .binary op left right, m, m', h => by
      simp only [Node.eval]
      apply (Node.foretells_eval left m m' h).andThen
      · intro l m m' h
        exact (Node.foretells_eval right m m' h).andThen
          (fun r _ _ h => .applied (op.applyBinary l r) h) fun r m t => applied_after m t _
      · intro l m t
        rw [Node.eval_after t right m]
        exact Outcome.andThen_after t _ fun r m => applied_after m t _
  | .assignment x value, m, m', h => by
      simp only [Node.eval]
      apply (Node.foretells_eval value m m' h).andThen
      · intro v m m' h
        rw [Machine.assign_null h.env]
        exact .same _ ⟨h.env, (m'.logs_assign x v).stdout.trans h.stdout⟩
      · intro v m t
        rw [Machine.assign_after]
        rfl
  | .exprStmt expr, m, m', h => Node.foretells_eval expr m m' h
  | .printStmt expr, m, m', h =>
      (Node.foretells_eval expr m m' h).andThen (fun v _ _ h => .printed v h)
        fun v m t => printed_after m t v
  | .declare x, m, m', h => by
      simp only [Node.eval]
      rw [Machine.declare_null h.env]
      exact .same _ ⟨h.env, (m'.logs_declare x).stdout.trans h.stdout⟩
  | .define x init, m, m', h => by
      simp only [Node.eval]
      apply (Node.foretells_eval init m m' h).andThen
      · intro v m m' h
        rw [Machine.declare_null h.env, Machine.assign_null h.env]
        refine .same _ ⟨h.env, ?_⟩
        rw [((m'.declare x).logs_assign x v).stdout, (m'.logs_declare x).stdout, h.stdout]
      · intro v m t
        rw [Machine.declare_after, Machine.assign_after]
        rfl
  | .assignStmt x value, m, m', h =>
      (Node.foretells_eval value m m' h).andThen (fun v _ _ h => .reassigned x v h)
        fun v m t => reassigned_after m t x v
  | .block ss, m, m', h => by
      have hpush : m.Shadows (m'.push blockName) :=
        ⟨h.env, (m'.logs_push blockName).stdout.trans h.stdout⟩
      have hss := Node.foretells_evalAll ss .nil m _ hpush
      simp only [Node.eval]
      rw [Machine.push_null h.env, leaveBlock_null hss.null]
      exact hss.leaveBlock (leaveBlock_eq (Node.tidy_evalAll ss .nil (m'.push blockName)).env).1
  | .unknown, _, _, h => .same _ h

theorem Node.foretells_evalAll : ∀ (ns : List Node) (last : Value) (m m' : Machine),
    m.Shadows m' → (Node.evalAll ns last m).Foretells (Node.evalAll ns last m')
  | [], last, _, _, h => .same (.ok last) h
  | n :: ns, _, m, m', h =>
      (Node.foretells_eval n m m' h).andThen (fun v m m' h => Node.foretells_evalAll ns v m m' h)
        fun v m t => Node.evalAll_after t ns v m

end

-- ================================================================ lookups

namespace Node

mutual

/-- A tree and all the trees in it. -/
def subtrees : Node → List Node
  | .literal v => [.literal v]
  | .variable x => [.variable x]
  | .unary op operand => .unary op operand :: subtrees operand
  | .binary op left right => .binary op left right :: (subtrees left ++ subtrees right)
  | .assignment x value => .assignment x value :: subtrees value
  | .exprStmt expr => .exprStmt expr :: subtrees expr
  | .printStmt expr => .printStmt expr :: subtrees expr
  | .declare x => [.declare x]
  | .define x init => .define x init :: subtrees init
  | .assignStmt x value => .assignStmt x value :: subtrees value
  | .block ss => .block ss :: subtreesAll ss
  | .unknown => [.unknown]

def subtreesAll : List Node → List Node
  | [] => []
  | n :: ns => subtrees n ++ subtreesAll ns

end

/-- Whether evaluating a node, its parts apart, looks a name up. -/
def isLookup : Node → Bool
  | .variable _ | .assignStmt _ _ => true
  | _ => false

end Node

/-- No tree among these looks a name up. -/
def Lookupless (ns : List Node) : Prop :=
  ∀ n ∈ ns, n.isLookup = false

theorem lookupless_nil : Lookupless [] := by
  intro n hn
  cases hn

/-- Trees hold no look-up if neither part of them does. -/
theorem lookupless_append {ns ns' : List Node} :
    Lookupless (ns ++ ns') ↔ Lookupless ns ∧ Lookupless ns' :=
  List.forall_mem_append

/-- A tree that is no look-up can be left out of account. -/
theorem lookupless_cons {n : Node} {ns : List Node} (h : n.isLookup = false) :
    Lookupless (n :: ns) ↔ Lookupless ns := by
  unfold Lookupless
  rw [List.forall_mem_cons]
  exact and_iff_right h

/-- One that is a look-up cannot. -/
theorem not_lookupless_cons {n : Node} {ns : List Node} (h : n.isLookup = true) :
    ¬ Lookupless (n :: ns) := by
  intro hns
  rw [hns n (List.mem_cons_self ..)] at h
  cases h

/-- `r.Tells p`: an outcome without scopes that tells whether `p`. A value says
yes, a missed name says no, and another fault leaves it open. -/
structure Outcome.Tells {α : Type} (r : Outcome α) (p : Prop) : Prop where
  env : r.2.env = .null
  of_ok : ∀ a, r.1 = .ok a → p
  of_missed : ∀ x, r.1 = .error (.undefined x) → ¬ p

namespace Outcome.Tells

variable {α β : Type} {m : Machine} {p q : Prop}

/-- A value tells of what holds. -/
theorem ok (a : α) (h : m.env = .null) (hp : p) : Tells (.ok a, m) p :=
  ⟨h, fun _ _ => hp, fun _ heq => by cases heq⟩

/-- A fault other than a missed name tells nothing. -/
theorem fault {fault : Fault} (h : m.env = .null) (hfault : ∀ x, fault ≠ .undefined x) :
    Tells ((.error fault, m) : Outcome α) p :=
  ⟨h, fun _ heq => (by cases heq), fun x heq => absurd (Except.error.inj heq) (hfault x)⟩

/-- A missed name tells of what does not hold. -/
theorem missed (x : String) (h : m.env = .null) (hp : ¬ p) :
    Tells ((.error (.undefined x), m) : Outcome α) p :=
  ⟨h, fun _ heq => (by cases heq), fun _ _ => hp⟩

/-- Two parts tell of both. -/
theorem andThen {r : Outcome α} {k : α → Machine → Outcome β} (h : r.Tells p)
    (hk : ∀ a m, m.env = .null → (k a m).Tells q) : (r.andThen k).Tells (p ∧ q) := by
  rcases r with ⟨fault | a, m⟩
  · exact ⟨h.env, fun _ heq => (by cases heq), fun x heq hpq =>
      h.of_missed x (congrArg Except.error (Except.error.inj heq)) hpq.1⟩
  · have hrest := hk a m h.env
    exact ⟨hrest.env, fun b hb => ⟨h.of_ok a rfl, hrest.of_ok b hb⟩,
      fun x hx hpq => hrest.of_missed x hx hpq.2⟩

/-- What tells of a statement tells of an equivalent one. -/
theorem congr {r : Outcome α} (h : r.Tells p) (hpq : p ↔ q) : r.Tells q :=
  ⟨h.env, fun a ha => hpq.1 (h.of_ok a ha), fun x hx hq => h.of_missed x hx (hpq.2 hq)⟩

/-- Steps that look nothing up leave open what has been told. -/
theorem followed {r : Outcome α} {k : α → Machine → Outcome β} (h : r.Tells p)
    (hk : ∀ a m, m.env = .null → (k a m).Tells True) : (r.andThen k).Tells p :=
  (h.andThen hk).congr (and_iff_left trivial)

theorem applied (r : Except TypeFault Value) (h : m.env = .null) : Tells (applied r m) True := by
  cases r with
  | ok v => exact .ok v h trivial
  | error fault => exact .fault h (by simp)

theorem printed (v : Value) (h : m.env = .null) : Tells (printed v m) True := by
  unfold Lox.printed
  split
  · exact .ok _ h trivial
  · exact .fault h (by simp)

end Outcome.Tells

mutual

/-- Evaluation without scopes tells whether a tree looks names up. -/
theorem Node.tells_eval : ∀ (n : Node) (m : Machine), m.env = .null →
    (n.eval m).Tells (Lookupless n.subtrees)
  | .literal v, _, h => .ok v h ((lookupless_cons rfl).2 lookupless_nil)
  | .variable x, m, h => by
      simp only [Node.eval]
      rw [Machine.get_null h]
      exact .missed x h (not_lookupless_cons rfl)
  | .unary op operand, m, h =>
      ((Node.tells_eval operand m h).followed fun _ _ h => .applied _ h).congr
        (lookupless_cons rfl).symm
  | .binary op left right, m, h => by
      apply Outcome.Tells.congr _ (lookupless_cons rfl).symm
      apply Outcome.Tells.congr _ lookupless_append.symm
      apply (Node.tells_eval left m h).andThen
      intro l m h
      exact (Node.tells_eval right m h).followed fun _ _ h => .applied _ h
  | .assignment x value, m, h => by
      apply Outcome.Tells.congr _ (lookupless_cons rfl).symm
      apply (Node.tells_eval value m h).followed
      intro v m h
      rw [Machine.assign_null h]
      exact .ok v h trivial
  | .exprStmt expr, m, h => (Node.tells_eval expr m h).congr (lookupless_cons rfl).symm
  | .printStmt expr, m, h =>
      ((Node.tells_eval expr m h).followed fun v _ h => .printed v h).congr
        (lookupless_cons rfl).symm
  | .declare x, m, h => by
      simp only [Node.eval]
      rw [Machine.declare_null h]
      exact .ok _ h ((lookupless_cons rfl).2 lookupless_nil)
  | .define x init, m, h => by
      apply Outcome.Tells.congr _ (lookupless_cons rfl).symm
      apply (Node.tells_eval init m h).followed
      intro v m h
      rw [Machine.declare_null h, Machine.assign_null h]
      exact .ok _ h trivial
  | .assignStmt x value, m, h => by
      have hvalue := (Node.tells_eval value m h).andThen (k := reassigned x) (q := False)
        fun v m h => by
          rw [Machine.reassigned_null h]
          exact .missed x h id
      exact hvalue.congr (iff_of_false And.right (not_lookupless_cons rfl))
  | .block ss, m, h => by
      have hss := Node.tells_evalAll ss .nil m h
      simp only [Node.eval]
      rw [Machine.push_null h, leaveBlock_null hss.env]
      exact hss.congr (lookupless_cons rfl).symm
  | .unknown, _, h => .fault h (by simp)

theorem Node.tells_evalAll : ∀ (ns : List Node) (last : Value) (m : Machine), m.env = .null →
    (Node.evalAll ns last m).Tells (Lookupless (Node.subtreesAll ns))
  | [], last, _, h => .ok last h lookupless_nil
  | n :: ns, _, m, h =>
      ((Node.tells_eval n m h).andThen fun v m h => Node.tells_evalAll ns v m h).congr
        lookupless_append.symm

end

/-- An expression holds no assignment statement. -/
theorem Node.IsExpression.assignStmt_not_mem {e : Node} (h : e.IsExpression) (x : String)
    (value : Node) : .assignStmt x value ∉ e.subtrees := by
  induction h with
  | literal hv => simp [subtrees]
  | name y => simp [subtrees]
  | unary op _ ih => simpa [subtrees] using ih
  | binary op _ _ ihl ihr => simpa [subtrees] using ⟨ihl, ihr⟩
  | assignment y _ ih => simpa [subtrees] using ih

/-- Trees without variables and assignment statements look nothing up. -/
theorem lookupless_iff {ns : List Node} :
    Lookupless ns ↔ (∀ x, .variable x ∉ ns) ∧ ∀ x value, .assignStmt x value ∉ ns := by
  constructor
  · intro h
    exact ⟨fun x hx => (by cases h _ hx), fun x value hx => (by cases h _ hx)⟩
  · rintro ⟨hvariable, hassign⟩ n hn
    unfold Node.isLookup
    split
    · exact absurd hn (hvariable _)
    · exact absurd hn (hassign _ _)
    · rfl

-- ============================================================= the result

/-- Evaluating a tree without scopes is foretold to every stack of scopes.
If it gives a value or a type fault, so does the tree there, the same one and
with the same on standard output. If it misses a name, the output there begins
the same. It gives a value only to trees without variables and assignment
statements, and in an expression without variables it misses no name. -/
theorem scopeless_eval_simulated (n : Node) (s : ScopeStack) (trace : Trace) :
    let alone := n.eval { env := .null }
    let inScopes := n.eval ⟨.stack s, trace⟩
    let shown := alone.2.trace.stdout
    (∀ v, alone.1 = .ok v →
        inScopes.1 = .ok v ∧ inScopes.2.trace.stdout = trace.stdout ++ shown)
      ∧ (∀ fault, alone.1 = .error (.illTyped fault) →
          inScopes.1 = .error (.illTyped fault)
            ∧ inScopes.2.trace.stdout = trace.stdout ++ shown)
      ∧ (∀ x, alone.1 = .error (.undefined x) →
          ∃ more, inScopes.2.trace.stdout = trace.stdout ++ shown ++ more)
      ∧ (∀ v, alone.1 = .ok v →
          (∀ x, .variable x ∉ n.subtrees) ∧ ∀ x value, .assignStmt x value ∉ n.subtrees)
      ∧ (n.IsExpression → (∀ x, .variable x ∉ n.subtrees) →
          ∀ x, alone.1 ≠ .error (.undefined x)) := by
  intro alone inScopes shown
  have hforetells : alone.Foretells (n.eval ⟨.stack s, []⟩) :=
    n.foretells_eval { env := .null } ⟨.stack s, []⟩ ⟨rfl, rfl⟩
  have htells : alone.Tells (Lookupless n.subtrees) := n.tells_eval { env := .null } rfl
  -- the effects so far take no part, so both sides start from none
  have hin : inScopes = (n.eval ⟨.stack s, []⟩).after trace := n.eval_trace _ _
  have hstdout : inScopes.2.trace.stdout
      = trace.stdout ++ (n.eval ⟨.stack s, []⟩).2.trace.stdout := by
    rw [hin]
    exact Trace.stdout_append _ _
  have hagree : (∀ x, alone.1 ≠ .error (.undefined x)) →
      inScopes.1 = alone.1 ∧ inScopes.2.trace.stdout = trace.stdout ++ shown := by
    intro hne
    obtain ⟨hanswer, hshown⟩ := hforetells.agree hne
    rw [hstdout, hshown, hin]
    exact ⟨hanswer, rfl⟩
  refine ⟨?_, ?_, ?_, ?_, ?_⟩
  · intro v hv
    rw [← hv]
    exact hagree fun x hx => by rw [hv] at hx; cases hx
  · intro fault hfault
    rw [← hfault]
    exact hagree fun x hx => by rw [hfault] at hx; cases hx
  · intro x _
    obtain ⟨more, hmore⟩ := hforetells.exists_more
    exact ⟨more, by rw [hstdout, hmore, String.append_assoc]⟩
  · intro v hv
    exact lookupless_iff.1 (htells.of_ok v hv)
  · intro he hvariable x hx
    exact htells.of_missed x hx (lookupless_iff.2 ⟨hvariable, he.assignStmt_not_mem⟩)

/-- A tree that prints and then misses a name, and an expression without
names. On a stack where the name has a value the first prints more. -/
theorem scopeless_eval_of_trees :
    let missing : Node := .block [.printStmt (.literal (.bool true)), .printStmt (.variable "x")]
    let nameless : Node := .unary (.unary .not) (.literal (.bool false))
    let s : ScopeStack := ⟨⟨"global", [("x", .string "seen")]⟩, []⟩
    (missing.eval { env := .null }).1 = .error (.undefined "x")
      ∧ (missing.eval ⟨.stack s, []⟩).2.trace.stdout = "true\nseen\n"
      ∧ (∃ more, (missing.eval ⟨.stack s, []⟩).2.trace.stdout = "" ++ "true\n" ++ more)
      ∧ (nameless.eval ⟨.stack s, []⟩).1 = .ok (.bool true)
      ∧ ∀ x, (nameless.eval { env := .null }).1 ≠ .error (.undefined x) := by
  intro missing nameless s
  have hmissing : (missing.eval { env := .null }).1 = .error (.undefined "x") := rfl
  have hnameless : (nameless.eval { env := .null }).1 = .ok (.bool true) := rfl
  obtain ⟨-, -, hmissed, -⟩ := scopeless_eval_simulated missing s []
  obtain ⟨hok, -, -, -, hfound⟩ := scopeless_eval_simulated nameless s []
  refine ⟨hmissing, by decide +kernel, hmissed "x" hmissing, (hok _ hnameless).1, ?_⟩
  refine hfound (.unary .not (.literal ?_)) fun x => ?_
  · exact fun h => by cases h
  · simp [nameless, Node.subtrees]

end Lox

/-
Which names a tree binds, and which names it can miss.

# Binding

`Node.binders` lists the names that a tree binds in the scope it is evaluated
in, in the order of binding. Blocks bind in scopes of their own, so they
count for nothing. A success binds exactly these names: the new ones among
them come after the old names of the innermost scope, in the order in which
they first occur, and all other names keep their values
(`Node.binds_eval`). A fault has bound what the trees completed before it
bind, and those are the first of the names (`Node.binders_completed`).

# Missing

A name is missed where it is looked up and has no value. Evaluation never
takes a value from a name, and an expression or a statement of the right
form gives a value to each name that it binds (`ScopeStack.Defines`). So a
name that is missed had no value at the start, and has not been bound since in
a scope that is still open. `Node.bound` lists the names bound in those
scopes: it looks into a block that the fault is in.
-/
import Lox.Proofs.Journal
import Lox.Proofs.Present

namespace Lox

-- ================================================================= names

/-- The names that a tree binds in the scope it is evaluated in. An assignment
binds its name after those of its value. -/
def Node.binders : Node → List String
  | .literal _ | .variable _ | .block _ | .unknown => []
  | .unary _ e | .exprStmt e | .printStmt e => e.binders
  | .binary _ left right => left.binders ++ right.binders
  | .declare x => [x]
  | .assignment x e | .define x e | .assignStmt x e => e.binders ++ [x]

/-- Some names followed by others, of which each new one is added once, where
it occurs first. -/
def followedBy (names more : List String) : List String :=
  names ++ (more.removeAll names).eraseDups

theorem followedBy_nil (names : List String) : followedBy names [] = names :=
  List.append_nil names

/-- One name is added at the end unless it is there. -/
theorem followedBy_singleton (names : List String) (x : String) :
    followedBy names [x] = if x ∈ names then names else names ++ [x] := by
  by_cases hx : x ∈ names
  · simp [followedBy, List.removeAll, hx]
  · simp [followedBy, List.removeAll, hx, List.eraseDups_cons]

/-- Names in two parts are added part by part. -/
theorem followedBy_append (names xs ys : List String) :
    followedBy names (xs ++ ys) = followedBy (followedBy names xs) ys := by
  have hboth : (xs ++ ys).removeAll names = xs.removeAll names ++ ys.removeAll names :=
    List.filter_append ..
  have hrest : (ys.removeAll names).removeAll (xs.removeAll names)
      = ys.removeAll (names ++ (xs.removeAll names).eraseDups) := by
    unfold List.removeAll
    rw [List.filter_filter]
    apply List.filter_congr
    intro y _
    by_cases hy : y ∈ names <;> simp [hy]
  unfold followedBy
  rw [hboth, List.eraseDups_append, hrest, List.append_assoc]

-- =================================================== with scopes or without

/-- A relation between stacks of scopes, where there may be no scopes at
all. -/
def Environment.Lifts (R : ScopeStack → ScopeStack → Prop) : Environment → Environment → Prop
  | .stack s, .stack s' => R s s'
  | .null, .null => True
  | _, _ => False

namespace Environment.Lifts

variable {R R' R'' : ScopeStack → ScopeStack → Prop} {a b c : Environment}

/-- An environment is related to itself if its stack is. -/
theorem refl (h : ∀ s, R s s) (env : Environment) : env.Lifts R env := by
  cases env with
  | stack s => exact h s
  | null => trivial

/-- Environments are related in two steps as their stacks are. -/
theorem trans (hab : a.Lifts R b) (hbc : b.Lifts R' c)
    (h : ∀ s s' s'', R s s' → R' s' s'' → R'' s s'') : a.Lifts R'' c := by
  match a, b, c, hab, hbc with
  | .stack s, .stack s', .stack s'', hab, hbc => exact h s s' s'' hab hbc
  | .null, .null, .null, _, _ => trivial

/-- A weaker relation of stacks is a weaker one of environments. -/
theorem mono (hab : a.Lifts R b) (h : ∀ s s', R s s' → R' s s') : a.Lifts R' b := by
  match a, b, hab with
  | .stack s, .stack s', hab => exact h s s' hab
  | .null, .null, _ => trivial

/-- What a call does to the scopes of a machine. -/
theorem call {m : Machine} (c : ScopeCall) (h : ∀ s, m.env = .stack s → R s (s.call c)) :
    m.env.Lifts R (m.call c).env := by
  rw [m.env_call]
  cases henv : m.env with
  | stack s => exact h s henv
  | null => trivial

/-- What a call does on both sides. -/
theorem calls (hab : a.Lifts R b) {c c' : ScopeCall}
    (h : ∀ s s', R s s' → R (s.call c) (s'.call c')) :
    (a.callAll [c]).Lifts R (b.callAll [c']) := by
  cases a with
  | stack s =>
      cases b with
      | stack s' => exact h s s' hab
      | null => exact hab
  | null =>
      cases b with
      | stack s' => exact hab
      | null => trivial

end Environment.Lifts

-- =============================================================== binding

/-- `s.Binds xs s'`: from `s` to `s'` the innermost scope was given the names
`xs`, and nothing else has changed. -/
structure ScopeStack.Binds (xs : List String) (s s' : ScopeStack) : Prop where
  outer : s'.outer = s.outer
  names : s'.innermost.names = followedBy s.innermost.names xs
  others : ∀ x, x ∉ xs → s'.innermost.find? x = s.innermost.find? x

namespace ScopeStack

theorem Binds.refl (s : ScopeStack) : s.Binds [] s :=
  ⟨rfl, (followedBy_nil _).symm, fun _ _ => rfl⟩

/-- What is bound in two steps are the names of both. -/
theorem Binds.trans {xs ys : List String} {s s' s'' : ScopeStack} (h : s.Binds xs s')
    (h' : s'.Binds ys s'') : s.Binds (xs ++ ys) s'' := by
  refine ⟨h'.outer.trans h.outer, ?_, fun x hx => ?_⟩
  · rw [h'.names, h.names, followedBy_append]
  · rw [List.mem_append, not_or] at hx
    exact (h'.others x hx.2).trans (h.others x hx.1)

/-- After a name is bound, it is found with the new value and all others as
before. -/
theorem find?_assign (s : ScopeStack) (x y : String) (v : Value) :
    (s.assign x v).innermost.find? y = if y = x then some v else s.innermost.find? y :=
  lookup_setBinding x y v s.innermost.bindings

/-- Binding a name binds it and no other. -/
theorem binds_assign (s : ScopeStack) (x : String) (v : Value) : s.Binds [x] (s.assign x v) := by
  refine ⟨rfl, ?_, fun y hy => ?_⟩
  · rw [followedBy_singleton]
    exact names_setBinding x v s.innermost.bindings
  · rw [List.mem_singleton] at hy
    rw [find?_assign, if_neg hy]

/-- A name is bound in the innermost scope exactly if it is one of its names. -/
theorem bindsHere_iff (s : ScopeStack) (x : String) :
    s.bindsHere x = true ↔ x ∈ s.innermost.names := by
  unfold bindsHere Scope.find? Scope.names
  rw [List.lookup_isSome_iff, List.mem_map]
  constructor
  · rintro ⟨binding, hmem, hx⟩
    exact ⟨binding, hmem, (beq_iff_eq.1 hx).symm⟩
  · rintro ⟨binding, hmem, rfl⟩
    exact ⟨binding, hmem, beq_self_eq_true _⟩

/-- Declaring a name binds it, whether or not it was bound before. -/
theorem binds_declare (s : ScopeStack) (x : String) : s.Binds [x] (s.declare x) := by
  rw [declare_eq]
  split
  · next hbinds =>
      refine ⟨rfl, ?_, fun _ _ => rfl⟩
      rw [followedBy_singleton, if_pos ((s.bindsHere_iff x).1 hbinds)]
  · exact s.binds_assign x .nil

/-- To bind a name twice is to bind it once. -/
theorem Binds.once {x : String} {s s' : ScopeStack} (h : s.Binds ([x] ++ [x]) s') :
    s.Binds [x] s' := by
  refine ⟨h.outer, ?_, fun y hy => h.others y (by simpa using hy)⟩
  rw [h.names, followedBy_append, followedBy_singleton (followedBy _ _), if_pos]
  rw [followedBy_singleton]
  split
  · assumption
  · simp

/-- What is looked up under another name is found as before. -/
theorem Binds.lookup {xs : List String} {s s' : ScopeStack} (h : s.Binds xs s') {x : String}
    (hx : x ∉ xs) : s'.lookup x = s.lookup x := by
  unfold ScopeStack.lookup ScopeStack.binding? ScopeStack.inward
  rw [h.outer, List.findSome?_cons, List.findSome?_cons, h.others x hx]

end ScopeStack

/-- The same where there may be no scopes at all. -/
def Environment.Binds (xs : List String) : Environment → Environment → Prop :=
  Environment.Lifts (ScopeStack.Binds xs)

namespace Environment

theorem Binds.refl (env : Environment) : env.Binds [] env :=
  Lifts.refl ScopeStack.Binds.refl env

theorem Binds.trans {xs ys : List String} {a b c : Environment} (h : a.Binds xs b)
    (h' : b.Binds ys c) : a.Binds (xs ++ ys) c :=
  Lifts.trans h h' fun _ _ _ => ScopeStack.Binds.trans

end Environment

namespace Machine

variable (m : Machine) (x : String)

/-- Binding a name on a machine binds it in its environment. -/
theorem binds_assign (v : Value) : m.env.Binds [x] (m.assign x v).env :=
  Environment.Lifts.call (.assign x v) fun s _ => s.binds_assign x v

theorem binds_declare : m.env.Binds [x] (m.declare x).env :=
  Environment.Lifts.call (.declare x) fun s _ => s.binds_declare x

/-- To declare a name and then assign to it is to bind it once. -/
theorem binds_define (v : Value) : m.env.Binds [x] ((m.declare x).assign x v).env :=
  ((m.binds_declare x).trans ((m.declare x).binds_assign x v)).mono fun _ _ => .once

end Machine

/-- An outcome from `m` that leads to an environment in the given relation if it
is a success. -/
def Outcome.Leads (R : Environment → Environment → Prop) (m : Machine) (r : Outcome Value) :
    Prop :=
  ∀ v, r.1 = .ok v → R m.env r.2.env

namespace Outcome.Leads

variable {R R' R'' : Environment → Environment → Prop} {m : Machine} {r : Outcome Value}
  {k : Value → Machine → Outcome Value}

/-- What leads there in two steps leads there. -/
theorem andThen (h : r.Leads R m) (hk : ∀ v m', r = (.ok v, m') → (k v m').Leads R' m')
    (trans : ∀ a b c, R a b → R' b c → R'' a c) : (r.andThen k).Leads R'' m := by
  rcases r with ⟨fault | v, m'⟩
  · intro v hv
    cases hv
  · intro w hw
    exact trans _ _ _ (h v rfl) (hk v m' rfl w hw)

/-- What leaves the environment alone leads no further. -/
theorem followed (h : r.Leads R m) (hk : ∀ v m', (k v m').2.env = m'.env) :
    (r.andThen k).Leads R m := by
  rcases r with ⟨fault | v, m'⟩
  · intro v hv
    cases hv
  · intro w _
    rw [andThen_ok, hk]
    exact h v rfl

end Outcome.Leads

/-- An outcome from `m` that binds the names `xs` if it is a success. -/
def Outcome.Binds (m : Machine) (xs : List String) (r : Outcome Value) : Prop :=
  r.Leads (Environment.Binds xs) m

namespace Outcome.Binds

variable {m : Machine} {xs ys : List String} {r : Outcome Value}
  {k : Value → Machine → Outcome Value}

/-- What is bound in two parts are the names of both. -/
theorem andThen (h : r.Binds m xs) (hk : ∀ v m', (k v m').Binds m' ys) :
    (r.andThen k).Binds m (xs ++ ys) :=
  Leads.andThen h (fun v m' _ => hk v m') fun _ _ _ => .trans

/-- A second part that changes no scope binds nothing. -/
theorem followed (h : r.Binds m xs) (hk : ∀ v m', (k v m').2.env = m'.env) :
    (r.andThen k).Binds m xs :=
  Leads.followed h hk

/-- An assignment statement binds its name if it succeeds. -/
theorem reassigned (x : String) (v : Value) (m : Machine) :
    Outcome.Binds m [x] (reassigned x v m) := by
  unfold Lox.reassigned
  split
  · exact fun _ _ => m.binds_assign x v
  · intro w hw
    cases hw

end Outcome.Binds

namespace Node

/-- A tree that is evaluated without a fault binds its names. -/
theorem binds_eval : ∀ (n : Node) (m : Machine), (n.eval m).Binds m n.binders
  | .literal v, _ => fun _ _ => .refl _
  | .variable x, _ => fun _ _ => .refl _
  | .block ss, m => fun _ _ => by
      rw [Node.env_eval_block]
      exact .refl _
  | .unknown, _ => fun _ _ => .refl _
  | .unary op operand, m => (binds_eval operand m).followed fun _ m' => env_applied _ m'
  | .binary op left right, m =>
      (binds_eval left m).andThen fun _ m' =>
        (binds_eval right m').followed fun _ m'' => env_applied _ m''
  | .assignment x value, m =>
      (binds_eval value m).andThen fun v m' _ _ => m'.binds_assign x v
  | .exprStmt expr, m => binds_eval expr m
  | .printStmt expr, m => (binds_eval expr m).followed env_printed
  | .declare x, m => fun _ _ => m.binds_declare x
  | .define x init, m => (binds_eval init m).andThen fun v m' _ _ => m'.binds_define x v
  | .assignStmt x value, m => (binds_eval value m).andThen (Outcome.Binds.reassigned x)

/-- Statements bind what each of them binds, in order. -/
theorem binds_evalAll (ns : List Node) (last : Value) (m : Machine) :
    (Node.evalAll ns last m).Binds m (ns.flatMap binders) := by
  induction ns generalizing last m with
  | nil => exact fun _ _ => .refl _
  | cons n ns ih =>
      rw [Node.evalAll, List.flatMap_cons]
      exact (n.binds_eval m).andThen fun v m' => ih v m'

/-- A tree binds what the trees completed in it bind, with a fault or not. -/
theorem binds_completed (n : Node) (m : Machine) :
    m.env.Binds ((n.completed m).flatMap binders) (n.eval m).2.env := by
  obtain ⟨v, m', heval, henv⟩ := n.exists_evalAll_completed m .nil
  have hbinds := binds_evalAll (n.completed m) .nil m v
  rw [heval, henv] at hbinds
  exact hbinds rfl

/-- The names bound before a fault are the first ones. -/
theorem binders_completed (n : Node) (m : Machine) :
    (n.completed m).flatMap binders <+: n.binders := by
  fun_induction Node.completed n m with
  | case1 n m v h => simp
  | case2 m fault op e h ih | case4 m fault e h ih | case5 m fault e h ih => exact ih
  | case3 m fault x e h ih | case6 m fault x e h ih | case7 m fault x e h ih =>
      exact ih.trans (List.prefix_append _ _)
  | case8 m fault op left right v m' hleft h ih =>
      rw [List.flatMap_cons]
      exact (List.prefix_append_right_inj _).2 ih
  | case9 m fault op left right fault' m' hleft h ih =>
      exact ih.trans (List.prefix_append _ _)
  | case10 | case11 | case12 | case13 | case14 => exact List.nil_prefix

end Node

-- =============================================================== missing

mutual

/-- The names that have been bound, when the evaluation of a tree is over, in
the scopes that were open at its end. A block was open at a fault in it, and is
closed if there was none. -/
def Node.bound (n : Node) (m : Machine) : List String :=
  match (n.eval m).1 with
  | .ok _ => n.binders
  | .error _ =>
      match n with
      | .unary _ e | .assignment _ e | .exprStmt e | .printStmt e | .define _ e
      | .assignStmt _ e => e.bound m
      | .binary _ left right =>
          match left.eval m with
          | (.ok _, m') => left.binders ++ right.bound m'
          | (.error _, _) => left.bound m
      | .block ss => Node.boundAll ss (m.push blockName)
      | .literal _ | .variable _ | .declare _ | .unknown => []

/-- The same of statements one after the other. -/
def Node.boundAll : List Node → Machine → List String
  | [], _ => []
  | n :: ns, m =>
      match n.eval m with
      | (.ok _, m') => n.binders ++ Node.boundAll ns m'
      | (.error _, _) => n.bound m

end

-- ------------------------------------------------------ names with a value

/-- `s.Defines xs s'`: the names that have a value in `s` have one in `s'`, and
so have the names `xs`. -/
structure ScopeStack.Defines (xs : List String) (s s' : ScopeStack) : Prop where
  kept : ∀ x, s.isDefined x = true → s'.isDefined x = true
  given : ∀ x ∈ xs, s'.isDefined x = true

namespace ScopeStack

theorem Defines.refl (s : ScopeStack) : s.Defines [] s :=
  ⟨fun _ h => h, fun _ hx => by cases hx⟩

/-- What has a value after two steps are the names of both. -/
theorem Defines.trans {xs ys : List String} {s s' s'' : ScopeStack} (h : s.Defines xs s')
    (h' : s'.Defines ys s'') : s.Defines (xs ++ ys) s'' := by
  refine ⟨fun x hx => h'.kept x (h.kept x hx), fun x hx => ?_⟩
  rcases List.mem_append.1 hx with hx | hx
  · exact h'.kept x (h.given x hx)
  · exact h'.given x hx

/-- The name assigned to is found with the value, unless that is missing. -/
theorem lookup_assign (s : ScopeStack) (x y : String) (v : Value) :
    (s.assign x v).lookup y = if y = x then (some v).filter (· ≠ .absent) else s.lookup y := by
  rw [ScopeStack.lookup_eq, ScopeStack.lookup_eq]
  unfold binding? inward
  rw [List.findSome?_cons, List.findSome?_cons, find?_assign]
  by_cases hy : y = x
  · rw [if_pos hy, if_pos hy]
  · rw [if_neg hy, if_neg hy]
    rfl

/-- A name that is bound to a value has one. -/
theorem defines_assign (s : ScopeStack) (x : String) {v : Value} (hv : v ≠ .absent) :
    s.Defines [x] (s.assign x v) := by
  have hvalue : (some v).filter (· ≠ .absent) = some v := by simp [hv]
  constructor
  · intro y hy
    unfold isDefined at *
    rw [lookup_assign, hvalue]
    split
    · rfl
    · exact hy
  · intro y hy
    rw [List.mem_singleton] at hy
    unfold isDefined
    rw [lookup_assign, hvalue, if_pos hy]
    rfl

/-- A declared name has a value if the names of the innermost scope have. -/
theorem defines_declare {s : ScopeStack} (h : s.innermost.Present) (x : String) :
    s.Defines [x] (s.declare x) := by
  rw [declare_eq]
  split
  · next hbinds =>
      refine ⟨fun _ hy => hy, fun y hy => ?_⟩
      rw [List.mem_singleton] at hy
      subst hy
      obtain ⟨v, hv⟩ := Option.isSome_iff_exists.1 hbinds
      obtain ⟨before, after, hbindings, -⟩ := List.lookup_eq_some_iff.1 hv
      have hpresent : v ≠ .absent := h (y, v) (by rw [hbindings]; simp)
      unfold isDefined
      rw [ScopeStack.lookup_eq, binding?, inward, List.findSome?_cons, hv]
      simp [hpresent]
  · exact s.defines_assign x (by simp)

/-- Names given twice are given once. -/
theorem Defines.once {x : String} {s s' : ScopeStack} (h : s.Defines ([x] ++ [x]) s') :
    s.Defines [x] s' :=
  ⟨h.kept, fun y hy => h.given y (List.mem_append_left _ hy)⟩

end ScopeStack

/-- The same where there may be no scopes at all. -/
def Environment.Defines (xs : List String) : Environment → Environment → Prop :=
  Environment.Lifts (ScopeStack.Defines xs)

/-- A name has no value and is none of some names; without scopes there is
nothing to say. -/
def Environment.Misses (xs : List String) (x : String) : Environment → Prop
  | .stack s => s.lookup x = none ∧ x ∉ xs
  | .null => True

namespace Environment

theorem Defines.refl (env : Environment) : env.Defines [] env :=
  Lifts.refl ScopeStack.Defines.refl env

theorem Defines.trans {xs ys : List String} {a b c : Environment} (h : a.Defines xs b)
    (h' : b.Defines ys c) : a.Defines (xs ++ ys) c :=
  Lifts.trans h h' fun _ _ _ => ScopeStack.Defines.trans

/-- A name that is missing later was missing before, and was not bound in
between. -/
theorem Misses.of_defines {xs ys : List String} {x : String} {a b : Environment}
    (h : b.Misses ys x) (hab : a.Defines xs b) : a.Misses (xs ++ ys) x := by
  match a, b, h, hab with
  | .stack s, .stack s', h, hab =>
      have hundefined : s'.isDefined x ≠ true := by
        unfold ScopeStack.isDefined
        rw [h.1]
        decide
      refine ⟨?_, ?_⟩
      · have hs : s.isDefined x ≠ true := fun hx => hundefined (hab.kept x hx)
        simpa [ScopeStack.isDefined] using hs
      · rw [List.mem_append, not_or]
        exact ⟨fun hx => hundefined (hab.given x hx), h.2⟩
  | .null, .null, _, _ => trivial

end Environment

namespace Machine

variable {m : Machine} (x : String)

theorem defines_assign (m : Machine) {v : Value} (hv : v ≠ .absent) :
    m.env.Defines [x] (m.assign x v).env :=
  Environment.Lifts.call (.assign x v) fun s _ => s.defines_assign x hv

/-- A declared name has a value if no absent ones are about. -/
theorem defines_declare (h : m.env.Present) : m.env.Defines [x] (m.declare x).env := by
  refine Environment.Lifts.call (.declare x) fun s hs => ?_
  rw [hs] at h
  exact ScopeStack.defines_declare h x

/-- A name without a value is missed. -/
theorem misses_of_lookup (h : m.lookup x = none) : m.env.Misses [] x := by
  unfold lookup at h
  cases henv : m.env with
  | stack s =>
      rw [henv] at h
      exact ⟨h, List.not_mem_nil⟩
  | null => trivial

/-- The name that a look-up misses has no value. -/
theorem misses_of_get {y : String} (h : m.get x = .error (.undefined y)) :
    m.env.Misses [] y := by
  unfold get at h
  split at h
  · cases h
  · next hnone =>
      cases h
      exact misses_of_lookup x hnone

/-- Nor has the one that an assignment statement misses. -/
theorem misses_of_reassigned {v : Value} {y : String}
    (h : (reassigned x v m).1 = .error (.undefined y)) : m.env.Misses [] y := by
  unfold reassigned at h
  split at h
  · cases h
  · next hundefined =>
      cases h
      apply misses_of_lookup
      simpa [isDefined] using hundefined

/-- Entering a block changes nothing about what is found. -/
theorem misses_of_push {name : String} {xs : List String}
    (h : (m.push name).env.Misses xs x) : m.env.Misses xs x := by
  rw [show (m.push name).env = _ from m.env_call (.push name)] at h
  cases henv : m.env with
  | stack s =>
      rw [henv] at h
      exact h
  | null => trivial

/-- A new scope binds no absent value. -/
theorem present_push (m : Machine) (name : String) : (m.push name).env.Present := by
  rw [show (m.push name).env = _ from m.env_call (.push name)]
  cases m.env with
  | stack s => exact fun _ hmem => by cases hmem
  | null => trivial

end Machine

-- -------------------------------------------------------------- outcomes

/-- An outcome from `m` that gives values to the names `xs` if it is a
success. -/
def Outcome.Defines (m : Machine) (xs : List String) (r : Outcome Value) : Prop :=
  r.Leads (Environment.Defines xs) m

namespace Outcome.Defines

variable {m : Machine} {xs ys : List String} {r : Outcome Value}
  {k : Value → Machine → Outcome Value}

/-- What has a value after two parts are the names of both. -/
theorem andThen (h : r.Defines m xs) (hk : ∀ v m', r = (.ok v, m') → (k v m').Defines m' ys) :
    (r.andThen k).Defines m (xs ++ ys) :=
  Leads.andThen h hk fun _ _ _ => .trans

/-- A second part that changes no scope takes no value away. -/
theorem followed (h : r.Defines m xs) (hk : ∀ v m', (k v m').2.env = m'.env) :
    (r.andThen k).Defines m xs :=
  Leads.followed h hk

end Outcome.Defines

namespace Outcome

/-- An ok outcome of a tree of the right form is a value that is there. -/
theorem Sound.ne_absent {r : Outcome Value} (h : r.Sound) {v : Value} {m : Machine}
    (hr : r = (.ok v, m)) : v ≠ .absent := by
  subst hr
  exact h

/-- A computation in two parts faults in the first or in the second. -/
theorem andThen_eq_error {r : Outcome Value} {k : Value → Machine → Outcome Value} {fault : Fault}
    (h : (r.andThen k).1 = .error fault) :
    r.1 = .error fault ∨ ∃ v m, r = (.ok v, m) ∧ (k v m).1 = .error fault := by
  rcases r with ⟨fault' | v, m⟩
  · exact .inl h
  · exact .inr ⟨v, m, rfl, h⟩

end Outcome

/-- No operator misses a name. -/
theorem applied_ne_undefined (r : Except TypeFault Value) (m : Machine) (x : String) :
    (applied r m).1 ≠ .error (.undefined x) := by
  cases r <;> simp [applied]

theorem printed_ne_undefined (v : Value) (m : Machine) (x : String) :
    (printed v m).1 ≠ .error (.undefined x) := by
  unfold printed
  split <;> simp

namespace Node

/-- The names that an expression binds have values when it succeeds. -/
theorem IsExpression.eval_defines {e : Node} (h : e.IsExpression) (m : Machine) :
    (e.eval m).Defines m e.binders := by
  induction h generalizing m with
  | literal _ | name _ => exact fun _ _ => .refl _
  | unary op _ ih =>
      rw [Node.eval]
      exact (ih m).followed fun _ m' => env_applied _ m'
  | binary op _ _ ihl ihr =>
      rw [Node.eval]
      exact (ihl m).andThen fun _ m' _ => (ihr m').followed fun _ m'' => env_applied _ m''
  | assignment x he ih =>
      rw [Node.eval]
      exact (ih m).andThen fun v m' hv _ _ =>
        m'.defines_assign x ((he.eval_sound m).ne_absent hv)

/-- A statement gives a value to each name it binds, where the names of the
innermost scope have values. -/
theorem IsStatement.eval_defines {s : Node} (h : s.IsStatement) {m : Machine}
    (hm : m.env.Present) : (s.eval m).Defines m s.binders := by
  cases h with
  | exprStmt he =>
      rw [Node.eval]
      exact he.eval_defines m
  | printStmt he =>
      rw [Node.eval]
      exact (he.eval_defines m).followed env_printed
  | declare x => exact fun _ _ => Machine.defines_declare x hm
  | define x he =>
      rw [Node.eval]
      apply (he.eval_defines m).andThen
      intro v m' hv w hw
      -- `var` binds the name to nil first, and then to the value
      have hpresent : m'.env.Present := by
        have hinit := he.eval_present hm
        rwa [hv] at hinit
      have hdeclare := Machine.defines_declare x hpresent
      have hassign := (m'.declare x).defines_assign x ((he.eval_sound m).ne_absent hv)
      exact (hdeclare.trans hassign).mono fun _ _ => .once
  | assignStmt x he =>
      rw [Node.eval]
      apply (he.eval_defines m).andThen
      intro v m' hv
      unfold reassigned
      split
      · exact fun _ _ => m'.defines_assign x ((he.eval_sound m).ne_absent hv)
      · intro w hw
        cases hw
  | block _ =>
      intro v _
      rw [Node.env_eval_block]
      exact .refl _

-- -------------------------------------------------------- where it faults

/-- After a success the names bound are all that the tree binds. -/
theorem bound_of_ok {n : Node} {m m' : Machine} {v : Value} (h : n.eval m = (.ok v, m')) :
    n.bound m = n.binders := by
  unfold bound
  rw [h]

/-- The first name that an expression misses has no value, and the expression
has not bound it. -/
theorem IsExpression.eval_misses {e : Node} (h : e.IsExpression) {m : Machine} {x : String}
    (hx : (e.eval m).1 = .error (.undefined x)) : m.env.Misses (e.bound m) x := by
  induction h generalizing m with
  | literal _ => cases hx
  | name y =>
      unfold bound
      rw [hx]
      exact Machine.misses_of_get y hx
  | unary op _ ih =>
      unfold bound
      rw [hx]
      dsimp only
      rcases Outcome.andThen_eq_error hx with hoperand | ⟨v, m', -, happlied⟩
      · exact ih hoperand
      · exact absurd happlied (applied_ne_undefined _ _ _)
  | @binary op left right hl _ ihl ihr =>
      unfold bound
      rw [hx]
      dsimp only
      rcases Outcome.andThen_eq_error hx with hleft | ⟨l, m', hleft, hx⟩
      · have hsplit : left.eval m = (.error (.undefined x), (left.eval m).2) := Prod.ext hleft rfl
        rw [hsplit]
        exact ihl hleft
      · rw [hleft]
        rcases Outcome.andThen_eq_error hx with hright | ⟨r, m'', -, happlied⟩
        -- a name that the left operand has bound is not missed by the right one
        · have hdefines := hl.eval_defines m l
          rw [hleft] at hdefines
          exact (ihr hright).of_defines (hdefines rfl)
        · exact absurd happlied (applied_ne_undefined _ _ _)
  | assignment y he ih =>
      unfold bound
      rw [hx]
      dsimp only
      rcases Outcome.andThen_eq_error hx with hvalue | ⟨v, m', -, hv⟩
      · exact ih hvalue
      · cases hv

/-- The same of statements one after the other, where the names of the
innermost scope have values. -/
theorem evalAll_misses {ss : List Node} {x : String} (h : ∀ s ∈ ss, s.IsStatement)
    (hmisses : ∀ s ∈ ss, ∀ m, (s.eval m).1 = .error (.undefined x) → m.env.Misses (s.bound m) x)
    {last : Value} {m : Machine} (hm : m.env.Present)
    (hx : (Node.evalAll ss last m).1 = .error (.undefined x)) :
    m.env.Misses (Node.boundAll ss m) x := by
  induction ss generalizing last m with
  | nil => cases hx
  | cons s ss ih =>
      rw [List.forall_mem_cons] at h hmisses
      unfold boundAll
      rcases Outcome.andThen_eq_error hx with hs | ⟨v, m', hs, hss⟩
      · have hsplit : s.eval m = (.error (.undefined x), (s.eval m).2) := Prod.ext hs rfl
        rw [hsplit]
        exact hmisses.1 m hs
      · have hdefines := h.1.eval_defines hm v
        have hpresent := h.1.eval_present hm
        rw [hs] at hdefines hpresent ⊢
        exact (ih h.2 hmisses.2 hpresent hss).of_defines (hdefines rfl)

/-- The name that a statement misses had no value before and has got none since,
in the scopes that are still open. -/
theorem IsStatement.eval_misses {s : Node} (h : s.IsStatement) (m : Machine) (x : String)
    (hx : (s.eval m).1 = .error (.undefined x)) : m.env.Misses (s.bound m) x := by
  induction h generalizing m with
  | exprStmt he =>
      unfold bound
      rw [hx]
      dsimp only
      exact he.eval_misses hx
  | printStmt he =>
      unfold bound
      rw [hx]
      dsimp only
      rcases Outcome.andThen_eq_error hx with hexpr | ⟨v, m', -, hprinted⟩
      · exact he.eval_misses hexpr
      · exact absurd hprinted (printed_ne_undefined _ _ _)
  | declare y => cases hx
  | define y he =>
      unfold bound
      rw [hx]
      dsimp only
      rcases Outcome.andThen_eq_error hx with hinit | ⟨v, m', -, hv⟩
      · exact he.eval_misses hinit
      · cases hv
  | assignStmt y he =>
      unfold bound
      rw [hx]
      dsimp only
      rcases Outcome.andThen_eq_error hx with hvalue | ⟨v, m', hvalue, hv⟩
      · exact he.eval_misses hvalue
      · have hdefines := he.eval_defines m v
        rw [hvalue] at hdefines
        have hmisses := (Machine.misses_of_reassigned y hv).of_defines (hdefines rfl)
        rwa [bound_of_ok hvalue, ← List.append_nil (Node.binders _)]
  | block hss ih =>
      unfold bound
      rw [hx]
      dsimp only
      apply Machine.misses_of_push
      apply evalAll_misses hss ih (m.present_push blockName)
      rw [← (leaveBlock_eq (Node.tidy_evalAll _ .nil (m.push blockName)).env).1]
      exact hx

end Node

/-- An assignment to a name without a value, with a value that does not bind the
name, fails. -/
theorem Node.exists_fault_of_reassigned (value : Node) {s : ScopeStack} {trace : Trace}
    {x : String} (hlookup : s.lookup x = none) (hx : x ∉ value.binders) :
    ∃ fault, ((Node.assignStmt x value).eval ⟨.stack s, trace⟩).1 = .error fault
      ∧ (fault = .undefined x ∨ (value.eval ⟨.stack s, trace⟩).1 = .error fault) := by
  have henv := value.env_eval ⟨.stack s, trace⟩
  have hbinds := value.binds_eval ⟨.stack s, trace⟩
  rw [Node.eval]
  rcases hvalue : value.eval ⟨.stack s, trace⟩ with ⟨fault | v, m⟩
  · exact ⟨fault, rfl, .inr rfl⟩
  · rw [hvalue] at henv hbinds
    have hs := hbinds v rfl
    rw [henv] at hs
    have hmissing : m.lookup x = none := by
      unfold Machine.lookup
      rw [henv]
      exact (ScopeStack.Binds.lookup hs hx).trans hlookup
    refine ⟨.undefined x, ?_, .inl rfl⟩
    simp [reassigned, Machine.isDefined, hmissing]

-- ============================================================= the result

/-- What a tree binds and what it misses, on any stack of scopes. A success
adds to the names of the innermost scope the new ones among the names that
the tree binds, in the order in which they occur first; a fault adds those of
the first few. A name that an expression or a statement misses had no value
before, and has not been bound since in a scope still open. So an assignment
statement to a name without a value, with a value that does not bind the name,
fails: over the name, unless the value fails before. -/
theorem eval_binds_names (n : Node) (s : ScopeStack) (trace : Trace) :
    let r := n.eval ⟨.stack s, trace⟩
    (∃ t, r.2.env = .stack t
        ∧ (∀ v, r.1 = .ok v → t.innermost.names = followedBy s.innermost.names n.binders)
        ∧ ∀ fault, r.1 = .error fault → ∃ done, done <+: n.binders
            ∧ t.innermost.names = followedBy s.innermost.names done)
      ∧ (n.IsExpression ∨ n.IsStatement → ∀ x, r.1 = .error (.undefined x) →
          s.lookup x = none ∧ x ∉ n.bound ⟨.stack s, trace⟩)
      ∧ ∀ x value, n = .assignStmt x value → s.lookup x = none → x ∉ value.binders →
          ∃ fault, r.1 = .error fault
            ∧ (fault = .undefined x ∨ (value.eval ⟨.stack s, trace⟩).1 = .error fault) := by
  intro r
  have ht : r.2.env = .stack (s.callAll (n.calls ⟨.stack s, trace⟩)) := n.env_eval _
  refine ⟨⟨_, ht, ?_, ?_⟩, ?_, ?_⟩
  · intro v hv
    have hbinds := n.binds_eval ⟨.stack s, trace⟩ v hv
    rw [ht] at hbinds
    exact ScopeStack.Binds.names hbinds
  · intro fault _
    have hbinds := n.binds_completed ⟨.stack s, trace⟩
    rw [ht] at hbinds
    exact ⟨_, n.binders_completed _, ScopeStack.Binds.names hbinds⟩
  · rintro (he | hs) x hx
    · exact he.eval_misses hx
    · exact hs.eval_misses _ x hx
  · rintro x value rfl hlookup hx
    exact value.exists_fault_of_reassigned hlookup hx

/-- A declaration whose value binds a name of its own, and two assignment
statements to a name without a value. The value of the second binds the name
before it is asked for. -/
theorem eval_binds_names_of_statements :
    let yes : Node := .literal (.bool true)
    let s : ScopeStack := ⟨⟨"global", [("a", .nil)]⟩, []⟩
    let declaring : Node := .define "x" (.assignment "y" (.assignment "a" yes))
    let missing : Node := .assignStmt "x" (.assignment "y" yes)
    let chained : Node := .assignStmt "x" (.assignment "x" yes)
    (∃ t, (declaring.eval ⟨.stack s, []⟩).2.env = .stack t
        ∧ t.innermost.names = ["a", "y", "x"])
      ∧ (∃ t, (missing.eval ⟨.stack s, []⟩).2.env = .stack t
        ∧ ∃ done, done <+: ["y", "x"] ∧ t.innermost.names = followedBy ["a"] done)
      ∧ (missing.eval ⟨.stack s, []⟩).1 = .error (.undefined "x")
      ∧ s.lookup "x" = none
      ∧ (∃ fault, (missing.eval ⟨.stack s, []⟩).1 = .error fault)
      ∧ (chained.eval ⟨.stack s, []⟩).1 = .ok (.bool true) := by
  intro yes s declaring missing chained
  have hdeclared : (declaring.eval ⟨.stack s, []⟩).1 = .ok .nil := rfl
  have hmissed : (missing.eval ⟨.stack s, []⟩).1 = .error (.undefined "x") := rfl
  have hstatement : missing.IsStatement :=
    .assignStmt "x" (.assignment "y" (.literal fun h => by cases h))
  obtain ⟨⟨t, ht, hnames, -⟩, -⟩ := eval_binds_names declaring s []
  obtain ⟨⟨u, hu, -, hdone⟩, hname, hfault⟩ := eval_binds_names missing s []
  refine ⟨⟨t, ht, hnames _ hdeclared⟩, ⟨u, hu, hdone _ hmissed⟩, hmissed,
    (hname (.inr hstatement) "x" hmissed).1, ?_, rfl⟩
  obtain ⟨fault, hfaulted, -⟩ := hfault "x" (.assignment "y" yes) rfl rfl (by decide)
  exact ⟨fault, hfaulted⟩

end Lox

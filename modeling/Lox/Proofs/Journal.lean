/-
What a stack of scopes has in it after any use.

A `Journal` is kept of the calls alone: what was written to each scope that
is open, latest write first. It never overwrites anything. That a scope binds
a name to what the journal says was written to it last (`Journal.Describes`)
is kept by every call, and since all use of a stack is calls, it holds after
any use. Reading goes through the scopes from the innermost one outwards, so
what it finds is the last write in the innermost scope that has one.

Being `WellFormed` is kept in the same way. For a push and its matching pop
the induction is over the uses in between, with the number of pushes not
yet popped (`nesting`): that many scopes and one more lie above the stack as
it was. All writes go to the innermost scope, so they never reach it.
-/
import Lox.Proofs.ScopeCalls

namespace Lox

-- ============================================================= one scope

/-- A scope that is set has the new value, and all others as before. -/
theorem lookup_setBinding (x y : String) (v : Value) (bindings : List (String × Value)) :
    (setBinding x v bindings).lookup y = if y = x then some v else bindings.lookup y := by
  induction bindings with
  | nil =>
      by_cases hy : y = x
      · simp [setBinding, hy]
      · simp [setBinding, List.lookup_cons, beq_eq_false_iff_ne.2 hy, hy]
  | cons binding rest ih =>
      obtain ⟨z, w⟩ := binding
      rw [setBinding]
      by_cases hz : z = x
      · subst hz
        by_cases hy : y = z
        · simp [hy]
        · simp [List.lookup_cons, beq_eq_false_iff_ne.2 hy, hy]
      · rw [if_neg hz, List.lookup_cons, List.lookup_cons, ih]
        by_cases hy : y = z
        · simp [hy, hz]
        · simp [beq_eq_false_iff_ne.2 hy]

/-- Setting a name adds it at the end, unless it is there. -/
theorem names_setBinding (x : String) (v : Value) (bindings : List (String × Value)) :
    (setBinding x v bindings).map Prod.fst
      = if x ∈ bindings.map Prod.fst then bindings.map Prod.fst
        else bindings.map Prod.fst ++ [x] := by
  induction bindings with
  | nil => rfl
  | cons binding rest ih =>
      obtain ⟨y, w⟩ := binding
      rw [setBinding]
      by_cases hy : y = x
      · simp [hy]
      · rw [if_neg hy, List.map_cons, ih]
        by_cases hx : x ∈ rest.map Prod.fst
        · simp only [List.map_cons, List.mem_cons, hx, or_true, if_true]
        · simp only [List.map_cons, List.mem_cons, hx, Ne.symm hy, or_false, if_false,
            List.cons_append]

/-- Binding a name lists no name twice. -/
theorem Scope.nodup_set {scope : Scope} (h : scope.names.Nodup) (x : String) (v : Value) :
    (scope.set x v).names.Nodup := by
  unfold Scope.names Scope.set at *
  rw [names_setBinding]
  split
  · exact h
  · next hx =>
      refine List.nodup_append.2 ⟨h, by simp, ?_⟩
      rintro y hy z hz rfl
      exact hx (List.mem_singleton.1 hz ▸ hy)

-- ============================================================ good order

/-- At the bottom is the global scope, and no scope binds a name twice. -/
structure ScopeStack.WellFormed (s : ScopeStack) : Prop where
  bottom : (s.scopes.map Scope.name).head? = some globalName
  nodup : ∀ scope ∈ s.inward, scope.names.Nodup

namespace ScopeStack

/-- A new scope is the last from the bottom up. -/
theorem scopes_push (s : ScopeStack) (name : String) :
    (s.push name).scopes = s.scopes ++ [⟨name, []⟩] := by
  simp [scopes, push, inward]

/-- A pop takes the first scope from the inside out. -/
theorem inward_of_pop? {s below : ScopeStack} {popped : Scope}
    (h : s.pop? = some (popped, below)) : s.inward = popped :: below.inward := by
  unfold pop? at h
  split at h
  · cases h
  · next houter =>
      cases h
      rw [inward, houter]
      rfl

/-- So it takes the last from the bottom up. -/
theorem scopes_of_pop? {s below : ScopeStack} {popped : Scope}
    (h : s.pop? = some (popped, below)) : s.scopes = below.scopes ++ [popped] := by
  rw [scopes, inward_of_pop? h, List.reverse_cons]
  rfl

theorem scopes_ne_nil (s : ScopeStack) : s.scopes ≠ [] := by
  simp [scopes, inward]

/-- The stack that a session starts with is in good order. -/
theorem wellFormed_default : ({} : ScopeStack).WellFormed := by
  refine ⟨rfl, fun scope hmem => ?_⟩
  obtain rfl := List.mem_singleton.1 hmem
  exact List.nodup_nil

namespace WellFormed

variable {s : ScopeStack}

/-- A new scope keeps the stack in good order. -/
theorem push (h : s.WellFormed) (name : String) : (s.push name).WellFormed := by
  refine ⟨?_, List.forall_mem_cons.2 ⟨List.nodup_nil, h.nodup⟩⟩
  rw [scopes_push, List.map_append, List.head?_append, h.bottom]
  rfl

/-- So does a pop, since the bottom is not popped. -/
theorem pop {below : ScopeStack} {popped : Scope} (h : s.WellFormed)
    (hpop : s.pop? = some (popped, below)) : below.WellFormed := by
  obtain ⟨hbottom, hnodup⟩ := h
  rw [inward_of_pop? hpop, List.forall_mem_cons] at hnodup
  refine ⟨?_, hnodup.2⟩
  rw [scopes_of_pop? hpop] at hbottom
  cases hscopes : below.scopes with
  | nil => exact absurd hscopes below.scopes_ne_nil
  | cons bottom above =>
      rw [hscopes] at hbottom
      exact hbottom

theorem assign (h : s.WellFormed) (x : String) (v : Value) : (s.assign x v).WellFormed := by
  refine ⟨?_, ?_⟩
  · rw [(s.extends_assign x v).scopeNames]
    exact h.bottom
  · have hnodup := List.forall_mem_cons.1 h.nodup
    exact List.forall_mem_cons.2 ⟨Scope.nodup_set hnodup.1 x v, hnodup.2⟩

/-- Every call keeps the stack in good order. -/
theorem call (h : s.WellFormed) (c : ScopeCall) : (s.call c).WellFormed := by
  cases c with
  | push name => exact h.push name
  | pop =>
      unfold ScopeStack.call
      cases hpop : s.pop? with
      | none => exact h
      | some r => exact h.pop hpop
  | declare x =>
      show (s.declare x).WellFormed
      rw [ScopeStack.declare_eq]
      split
      · exact h
      · exact h.assign x .nil
  | assign x v => exact h.assign x v
  | get x | lookup x | isDefined x => exact h

theorem callAll (h : s.WellFormed) (calls : List ScopeCall) : (s.callAll calls).WellFormed := by
  induction calls generalizing s with
  | nil => exact h
  | cons c calls ih => exact ih (h.call c)

end WellFormed

end ScopeStack

-- =============================================================== journals

/-- What was written to the innermost scope, and to those around it from the
inside out; latest write first. -/
structure Journal where
  innermost : List (String × Value) := []
  outer : List (List (String × Value)) := []
deriving DecidableEq, Repr

namespace Journal

def inward (j : Journal) : List (List (String × Value)) :=
  j.innermost :: j.outer

/-- The journal after a write to the innermost scope. -/
def write (j : Journal) (x : String) (v : Value) : Journal :=
  { j with innermost := (x, v) :: j.innermost }

/-- The journal after a call. Declaring a name writes nil, unless the name was
written to the innermost scope before. -/
def record (j : Journal) : ScopeCall → Journal
  | .push _ => { outer := j.inward }
  | .pop =>
      match j.outer with
      | [] => j
      | below :: outer => { innermost := below, outer }
  | .declare x => if (j.innermost.lookup x).isSome then j else j.write x .nil
  | .assign x v => j.write x v
  | .get _ | .lookup _ | .isDefined _ => j

/-- The journal of some calls to a new stack. -/
def ofCalls (calls : List ScopeCall) : Journal :=
  calls.foldl record {}

/-- The value last written to a name in the innermost scope that it was
written to. -/
def lastWritten (j : Journal) (x : String) : Option Value :=
  j.inward.findSome? (·.lookup x)

/-- In each scope a name is bound to what was last written to it there. -/
def Describes (j : Journal) (s : ScopeStack) : Prop :=
  s.inward.map Scope.find? = j.inward.map fun log x => log.lookup x

namespace Describes

variable {j : Journal} {s : ScopeStack}

/-- A journal describes a stack if it has the same entries scope by scope. -/
theorem iff : j.Describes s ↔ (s.innermost.find? = fun x => j.innermost.lookup x)
    ∧ s.outer.map Scope.find? = j.outer.map fun log x => log.lookup x :=
  List.cons_eq_cons

/-- An entry for a name describes the stack after binding it. -/
theorem write (h : j.Describes s) (x : String) (v : Value) :
    (j.write x v).Describes (s.assign x v) := by
  obtain ⟨hinner, houter⟩ := iff.1 h
  refine iff.2 ⟨?_, houter⟩
  funext y
  show (setBinding x v s.innermost.bindings).lookup y = List.lookup y ((x, v) :: j.innermost)
  rw [lookup_setBinding, List.lookup_cons]
  by_cases hy : y = x
  · simp [hy]
  · have hbelow : s.innermost.bindings.lookup y = j.innermost.lookup y := congrFun hinner y
    simp [hy, beq_eq_false_iff_ne.2 hy, hbelow]

/-- A pop closes the innermost part of the journal, if there is another
below. -/
theorem pop (h : j.Describes s) : (j.record .pop).Describes (s.call .pop) := by
  obtain ⟨-, houter⟩ := iff.1 h
  unfold record ScopeStack.call ScopeStack.pop?
  dsimp only
  cases hs : s.outer with
  | nil =>
      rw [hs, List.map_nil, eq_comm, List.map_eq_nil_iff] at houter
      rw [houter]
      exact h
  | cons below rest =>
      rw [hs, List.map_cons] at houter
      cases hj : j.outer with
      | nil =>
          rw [hj] at houter
          cases houter
      | cons log logs =>
          rw [hj] at houter
          exact houter

/-- What a call writes down describes what the call does. -/
theorem record (h : j.Describes s) (c : ScopeCall) : (j.record c).Describes (s.call c) := by
  cases c with
  | push name => exact List.cons_eq_cons.2 ⟨rfl, h⟩
  | pop => exact h.pop
  | declare x =>
      have hbinds : s.bindsHere x = (j.innermost.lookup x).isSome :=
        congrArg Option.isSome (congrFun (iff.1 h).1 x)
      unfold Journal.record ScopeStack.call
      dsimp only
      rw [ScopeStack.declare_eq, hbinds]
      split
      · exact h
      · exact h.write x .nil
  | assign x v => exact h.write x v
  | get x | lookup x | isDefined x => exact h

/-- The innermost binding of a name is what was written for it last. -/
theorem binding? (h : j.Describes s) (x : String) : s.binding? x = j.lastWritten x := by
  have hmap := congrArg (List.findSome? (· x)) h
  rw [List.findSome?_map, List.findSome?_map] at hmap
  exact hmap

end Describes

/-- The journal of the calls describes the stack that they lead to. -/
theorem describes_callAll {j : Journal} {s : ScopeStack} (h : j.Describes s)
    (calls : List ScopeCall) : (calls.foldl Journal.record j).Describes (s.callAll calls) := by
  induction calls generalizing j s with
  | nil => exact h
  | cons c calls ih => exact ih (h.record c)

end Journal

-- ============================================================== bracketing

/-- The pushes not yet popped after some calls, when so many were before;
none if one of those is popped that was open at the start. -/
def nesting : Nat → List ScopeCall → Option Nat
  | k, [] => some k
  | k, .push _ :: calls => nesting (k + 1) calls
  | 0, .pop :: _ => none
  | k + 1, .pop :: calls => nesting k calls
  | k, _ :: calls => nesting k calls

/-- The stack `base` lies below the `k` innermost scopes and one more. -/
def ScopeStack.Above (s : ScopeStack) (k : Nat) (base : ScopeStack) : Prop :=
  s.inward.drop (k + 1) = base.inward

namespace ScopeStack

variable {s s' base : ScopeStack} {k : Nat}

/-- A new scope stands on the stack as it was. -/
theorem above_push (s : ScopeStack) (name : String) : (s.push name).Above 0 s :=
  rfl

/-- Another one stands one higher. -/
theorem Above.push (h : s.Above k base) (name : String) : (s.push name).Above (k + 1) base :=
  h

/-- Binding names on top leaves alone what is below. -/
theorem Above.extends (h : s.Above k base) (hs : s.Extends s') : s'.Above k base := by
  unfold Above inward at *
  rw [List.drop_succ_cons] at h ⊢
  rwa [hs.outer]

/-- Above another stack there is something to pop. -/
theorem Above.exists_pop (h : s.Above k base) :
    ∃ popped below, s.pop? = some (popped, below) ∧ below.inward.drop k = base.inward := by
  cases hpop : s.pop? with
  | none =>
      have houter : s.outer = [] := by
        unfold pop? at hpop
        split at hpop
        · assumption
        · cases hpop
      unfold Above inward at h
      rw [houter, List.drop_succ_cons, List.drop_nil] at h
      cases h
  | some r =>
      obtain ⟨popped, below⟩ := r
      unfold Above at h
      rw [inward_of_pop? hpop, List.drop_succ_cons] at h
      exact ⟨popped, below, rfl, h⟩

/-- Stacks are determined by their scopes. -/
theorem eq_of_inward (h : s.inward = s'.inward) : s = s' := by
  obtain ⟨innermost, outer⟩ := s
  obtain ⟨innermost', outer'⟩ := s'
  cases h
  rfl

end ScopeStack

/-- A call of the host that stays above the base moves as the count of
pushes does. -/
theorem ScopeStack.Above.call {s base : ScopeStack} {k k' : Nat} {c : ScopeCall}
    {calls : List ScopeCall} (h : s.Above k base) (hnest : nesting k (c :: calls) = some k') :
    ∃ k'', (s.call c).Above k'' base ∧ nesting k'' calls = some k' := by
  cases c with
  | push name => exact ⟨k + 1, h.push name, hnest⟩
  | pop =>
      cases k with
      | zero => cases hnest
      | succ k =>
          obtain ⟨popped, below, hpop, hbelow⟩ := h.exists_pop
          refine ⟨k, ?_, hnest⟩
          rw [ScopeStack.call, hpop]
          exact hbelow
  | declare x => exact ⟨k, h.extends (s.extends_declare x), hnest⟩
  | assign x v => exact ⟨k, h.extends (s.extends_assign x v), hnest⟩
  | get x | lookup x | isDefined x => exact ⟨k, h, hnest⟩

namespace Machine

/-- Evaluating sources leaves all scopes but the innermost alone. -/
theorem extends_callsAll {m : Machine} {s : ScopeStack} (henv : m.env = .stack s)
    (ns : List Node) : s.Extends (s.callAll (Node.callsAll ns m)) := by
  have htidy := (Node.tidy_evalAll ns .nil m).env
  rw [Node.env_evalAll, henv] at htidy
  exact htidy

/-- A use on scopes makes its calls on them. -/
theorem env_use_stack {m : Machine} {s : ScopeStack} (henv : m.env = .stack s)
    (u : ScopeUse) : (m.use u).env = .stack (s.callAll (u.calls m)) := by
  rw [m.env_use, henv]
  rfl

/-- The base is still there after uses that do not pop it. -/
theorem exists_above {m : Machine} {s base : ScopeStack} {k k' : Nat} {between : List ScopeUse}
    (henv : m.env = .stack s) (h : s.Above k base)
    (hnest : nesting k (between.flatMap ScopeUse.own) = some k') :
    ∃ s', (m.useAll between).env = .stack s' ∧ s'.Above k' base := by
  induction between generalizing m s k with
  | nil =>
      cases hnest
      exact ⟨s, henv, h⟩
  | cons u between ih =>
      have huse := env_use_stack henv u
      rw [List.flatMap_cons] at hnest
      cases u with
      | call c =>
          obtain ⟨k'', habove, hnest⟩ := h.call hnest
          exact ih huse habove hnest
      | run source report | evaluate source report =>
          exact ih huse (h.extends (extends_callsAll henv _)) hnest

/-- A push and its matching pop undo each other, whatever is done in
between. -/
theorem env_useAll_bracket {m : Machine} {s : ScopeStack} (henv : m.env = .stack s)
    (name : String) {between : List ScopeUse}
    (hnest : nesting 0 (between.flatMap ScopeUse.own) = some 0) :
    (m.useAll (.call (.push name) :: between ++ [.call .pop])).env = m.env := by
  have hpushed : (m.use (.call (.push name))).env = .stack (s.push name) :=
    env_use_stack henv _
  obtain ⟨s', henv', habove⟩ := exists_above hpushed (s.above_push name) hnest
  obtain ⟨popped, below, hpop, hbelow⟩ := habove.exists_pop
  rw [useAll_append]
  show (((m.use (.call (.push name))).useAll between).use (.call .pop)).env = m.env
  rw [env_use_stack henv', henv]
  show Environment.stack (s'.call .pop) = .stack s
  rw [ScopeStack.call, hpop]
  exact congrArg Environment.stack (ScopeStack.eq_of_inward hbelow)

end Machine

-- ============================================================ the result

/-- A pop is refused exactly at the bottom, and then changes nothing. -/
theorem Machine.pop_eq {m : Machine} {s : ScopeStack} (henv : m.env = .stack s) :
    m.pop.1 = (if s.depth = 1 then .error .globalPopped else .ok ())
      ∧ (s.depth = 1 → m.pop.2 = m) := by
  obtain ⟨innermost, outer⟩ := s
  unfold Machine.pop
  rw [henv]
  cases outer with
  | nil => exact ⟨rfl, fun _ => rfl⟩
  | cons below outer => simp [ScopeStack.pop?, ScopeStack.depth]

/-- A value that is found is one that is there. -/
theorem ScopeStack.lookup_eq (s : ScopeStack) (x : String) :
    s.lookup x = (s.binding? x).filter (· ≠ .absent) := by
  unfold ScopeStack.lookup
  cases s.binding? x with
  | none => rfl
  | some v => cases v <;> rfl

/-- A name has a value exactly if looking it up gives one. -/
theorem Machine.isDefined_iff (m : Machine) (x : String) :
    m.isDefined x = true ↔ ∃ v, m.get x = .ok v := by
  unfold isDefined get
  cases m.lookup x <;> simp

/-- After any calls to a new stack of scopes and any evaluations of sources on
it: at the bottom is the global scope; no scope binds a name twice; popping is
refused exactly at the bottom, and then changes nothing. Each scope binds a
name to what was last written to it there, and a lookup finds this value in
the innermost scope that has one; a name is defined exactly if reading it
succeeds. And from there a push, with its matching pop and anything in
between, gives back the same stack. -/
theorem scope_stack_after_any_use (uses : List ScopeUse) :
    let m := ({} : Machine).useAll uses
    let journal := Journal.ofCalls (({} : Machine).callsOf uses)
    ∃ s, m.env = .stack s
      ∧ (∃ bottom above, s.scopes = bottom :: above ∧ bottom.name = globalName)
      ∧ (∀ scope ∈ s.scopes, scope.names.Nodup)
      ∧ m.pop.1 = (if s.depth = 1 then .error .globalPopped else .ok ())
      ∧ (s.depth = 1 → m.pop.2 = m)
      ∧ (∀ x, s.inward.map (·.find? x) = journal.inward.map (·.lookup x))
      ∧ (∀ x, m.lookup x = (journal.lastWritten x).filter (· ≠ .absent))
      ∧ (∀ x, m.isDefined x = true ↔ ∃ v, m.get x = .ok v)
      ∧ ∀ name between, nesting 0 (between.flatMap ScopeUse.own) = some 0 →
          (m.useAll (.call (.push name) :: between ++ [.call .pop])).env = m.env := by
  intro m journal
  let s : ScopeStack := ({} : ScopeStack).callAll (({} : Machine).callsOf uses)
  have henv : m.env = .stack s := ({} : Machine).env_useAll uses
  have hformed : s.WellFormed := ScopeStack.wellFormed_default.callAll _
  have hnew : Journal.Describes {} {} := rfl
  -- the journal goes along the calls made, whatever program made them
  have hdescribes : journal.Describes s := Journal.describes_callAll hnew _
  obtain ⟨hpop, hstays⟩ := Machine.pop_eq henv
  refine ⟨s, henv, ?_, ?_, hpop, hstays, fun x => ?_, fun x => ?_, m.isDefined_iff,
    fun name between hnest => Machine.env_useAll_bracket henv name hnest⟩
  · have hbottom := hformed.bottom
    cases hscopes : s.scopes with
    | nil => exact absurd hscopes s.scopes_ne_nil
    | cons bottom above =>
        rw [hscopes] at hbottom
        exact ⟨bottom, above, rfl, Option.some.inj hbottom⟩
  · intro scope hmem
    exact hformed.nodup scope (List.mem_reverse.1 hmem)
  · have hmap := congrArg (List.map (· x)) hdescribes
    rw [List.map_map, List.map_map] at hmap
    exact hmap
  · rw [← hdescribes.binding?, ← s.lookup_eq]
    unfold Machine.lookup
    rw [henv]

/-- A pop that is refused, a nested push with its pop, and sources that write
and that do not parse, between a push and its pop. -/
theorem scope_stack_after_refused_pop :
    let uses : List ScopeUse := [.call .pop, .call (.assign "a" (.bool true)),
      .call (.push "inner")]
    let between : List ScopeUse := [.call (.push "deeper"), .run "var a = 1; { a = 2; }" .echo,
      .call .pop, .call (.get "b"), .evaluate "a = (" .warn]
    nesting 0 (between.flatMap ScopeUse.own) = some 0
      ∧ (({} : Machine).useAll
          (uses ++ (.call (.push "block") :: between ++ [.call .pop]))).env
        = .stack ⟨⟨"inner", []⟩, [⟨"global", [("a", .bool true)]⟩]⟩ := by
  intro uses between
  have hnest : nesting 0 (between.flatMap ScopeUse.own) = some 0 := by decide
  obtain ⟨s, -, -, -, -, -, -, -, -, hbracket⟩ := scope_stack_after_any_use uses
  refine ⟨hnest, ?_⟩
  rw [Machine.useAll_append]
  exact hbracket "block" between hnest

end Lox

/-
Whatever happens to the scopes is a sequence of calls.

There are seven calls to a stack of scopes (`ScopeCall`). Evaluation has no
other access to it: `Node.calls` lists the calls that the evaluation of a
tree makes, up to a fault if there is one, and the environment afterwards is
what these calls make of the one before (`Node.env_eval`). So does a run of
a source, whose statements are evaluated in order.

What a host does with a stack is a sequence of `ScopeUse`s: calls of its own,
and evaluations of sources. It comes down to one sequence of calls
(`Machine.env_useAll`).
-/
import Lox.Proofs.Completed
import Lox.Proofs.Run

namespace Lox

-- ================================================================== calls

/-- A call to a stack of scopes. -/
inductive ScopeCall where
  | push (name : String)
  | pop
  | declare (x : String)
  | assign (x : String) (v : Value)
  | get (x : String)
  | lookup (x : String)
  | isDefined (x : String)
deriving DecidableEq, Repr

/-- The stack after a call. Reading leaves it as it is, and so does a pop
that fails. -/
def ScopeStack.call (s : ScopeStack) : ScopeCall → ScopeStack
  | .push name => s.push name
  | .pop =>
      match s.pop? with
      | some (_, below) => below
      | none => s
  | .declare x => s.declare x
  | .assign x v => s.assign x v
  | .get _ | .lookup _ | .isDefined _ => s

def ScopeStack.callAll (s : ScopeStack) (calls : List ScopeCall) : ScopeStack :=
  calls.foldl call s

/-- The machine after a call. -/
def Machine.call (m : Machine) : ScopeCall → Machine
  | .push name => m.push name
  | .pop => m.pop.2
  | .declare x => m.declare x
  | .assign x v => m.assign x v
  | .get _ | .lookup _ | .isDefined _ => m

/-- The environment after some calls; without scopes they do nothing. -/
def Environment.callAll (env : Environment) (calls : List ScopeCall) : Environment :=
  match env with
  | .stack s => .stack (s.callAll calls)
  | .null => .null

namespace Environment

@[simp]
theorem callAll_nil (env : Environment) : env.callAll [] = env := by
  cases env <;> rfl

/-- Calls in two parts are made one part after the other. -/
theorem callAll_append (env : Environment) (calls calls' : List ScopeCall) :
    env.callAll (calls ++ calls') = (env.callAll calls).callAll calls' := by
  cases env with
  | null => rfl
  | stack s => simp [callAll, ScopeStack.callAll]

theorem callAll_cons (env : Environment) (call : ScopeCall) (calls : List ScopeCall) :
    env.callAll (call :: calls) = (env.callAll [call]).callAll calls :=
  env.callAll_append [call] calls

end Environment

/-- A call on a machine is the call on its environment. -/
theorem Machine.env_call (m : Machine) (call : ScopeCall) :
    (m.call call).env = m.env.callAll [call] := by
  obtain ⟨env, trace⟩ := m
  cases env with
  | null => cases call <;> rfl
  | stack s =>
      cases call with
      | push name => rfl
      | pop =>
          simp only [Machine.call, Machine.pop, Environment.callAll, ScopeStack.callAll,
            List.foldl_cons, List.foldl_nil, ScopeStack.call]
          rcases s.pop? with _ | ⟨popped, below⟩ <;> rfl
      | declare x =>
          simp only [Machine.call, Machine.declare, Environment.callAll, ScopeStack.callAll,
            List.foldl_cons, List.foldl_nil, ScopeStack.call]
          by_cases hbinds : s.bindsHere x = true
          · rw [if_pos hbinds, ScopeStack.declare_eq, if_pos hbinds]
          · rw [if_neg hbinds]
            rfl
      | assign x v => rfl
      | get x | lookup x | isDefined x => rfl

-- ============================================================= evaluation

/-- Calls that are made with the value of an evaluation, if it has one. -/
def Outcome.calls (r : Outcome Value) (next : Value → Machine → List ScopeCall) :
    List ScopeCall :=
  match r with
  | (.ok v, m) => next v m
  | (.error _, _) => []

mutual

/-- The calls that the evaluation of a tree makes. -/
def Node.calls : Node → Machine → List ScopeCall
  | .literal _, _ | .unknown, _ => []
  | .variable x, _ => [.get x]
  | .unary _ operand, m => operand.calls m
  | .binary _ left right, m => left.calls m ++ (left.eval m).calls fun _ m => right.calls m
  | .assignment x value, m => value.calls m ++ (value.eval m).calls fun v _ => [.assign x v]
  | .exprStmt expr, m | .printStmt expr, m => expr.calls m
  | .declare x, _ => [.declare x]
  | .define x init, m =>
      init.calls m ++ (init.eval m).calls fun v _ => [.declare x, .assign x v]
  | .assignStmt x value, m =>
      value.calls m ++ (value.eval m).calls fun v m =>
        .isDefined x :: if m.isDefined x then [.assign x v] else []
  | .block statements, m =>
      .push blockName :: (Node.callsAll statements (m.push blockName) ++ [.pop])

/-- The same of statements one after the other. -/
def Node.callsAll : List Node → Machine → List ScopeCall
  | [], _ => []
  | n :: ns, m => n.calls m ++ (n.eval m).calls fun _ m => Node.callsAll ns m

end

/-- Going on after an evaluation is going on with the calls. -/
theorem Outcome.env_andThen {env : Environment} {r : Outcome Value} {calls : List ScopeCall}
    {k : Value → Machine → Outcome Value} {next : Value → Machine → List ScopeCall}
    (h : r.2.env = env.callAll calls)
    (hk : ∀ v m, (k v m).2.env = m.env.callAll (next v m)) :
    (r.andThen k).2.env = env.callAll (calls ++ r.calls next) := by
  rw [Environment.callAll_append, ← h]
  rcases r with ⟨fault | v, m⟩
  · exact (m.env.callAll_nil).symm
  · exact hk v m

/-- The same if nothing is called any more. -/
theorem Outcome.env_andThen_of_env {env : Environment} {r : Outcome Value}
    {calls : List ScopeCall} {k : Value → Machine → Outcome Value}
    (h : r.2.env = env.callAll calls) (hk : ∀ v m, (k v m).2.env = m.env) :
    (r.andThen k).2.env = env.callAll calls := by
  rw [← h]
  rcases r with ⟨fault | v, m⟩
  · rfl
  · exact hk v m

/-- An assignment statement asks whether its name has a value, and writes if it
has. -/
theorem env_reassigned (x : String) (v : Value) (m : Machine) :
    (reassigned x v m).2.env
      = m.env.callAll (.isDefined x :: if m.isDefined x then [.assign x v] else []) := by
  rw [Environment.callAll_cons, ← m.env_call]
  unfold reassigned
  split
  · exact m.env_call (.assign x v)
  · exact (m.env.callAll_nil).symm

/-- Leaving a block is one pop. -/
theorem env_leaveBlock (r : Outcome Value) : (leaveBlock r).2.env = r.2.env.callAll [.pop] := by
  rw [← r.2.env_call]
  unfold leaveBlock Machine.call
  rcases r.2.pop with ⟨fault | u, m⟩ <;> rfl

mutual

/-- Evaluation changes the scopes by its calls only. -/
theorem Node.env_eval : ∀ (n : Node) (m : Machine), (n.eval m).2.env = m.env.callAll (n.calls m)
  | .literal v, m | .unknown, m => (m.env.callAll_nil).symm
  | .variable x, m => m.env_call (.get x)
  | .unary op operand, m =>
      Outcome.env_andThen_of_env (Node.env_eval operand m) fun _ m => env_applied _ m
  | .binary op left right, m =>
      Outcome.env_andThen (Node.env_eval left m) fun _ m =>
        Outcome.env_andThen_of_env (Node.env_eval right m) fun _ m => env_applied _ m
  | .assignment x value, m =>
      Outcome.env_andThen (Node.env_eval value m) fun v m => m.env_call (.assign x v)
  | .exprStmt expr, m => Node.env_eval expr m
  | .printStmt expr, m =>
      Outcome.env_andThen_of_env (Node.env_eval expr m) fun v m => env_printed v m
  | .declare x, m => m.env_call (.declare x)
  | .define x init, m =>
      Outcome.env_andThen (Node.env_eval init m) fun v m => by
        rw [Environment.callAll_cons, ← m.env_call]
        exact (m.declare x).env_call (.assign x v)
  | .assignStmt x value, m =>
      Outcome.env_andThen (Node.env_eval value m) fun v m => env_reassigned x v m
  | .block statements, m => by
      rw [Node.eval, Node.calls, env_leaveBlock, Node.env_evalAll,
        Environment.callAll_cons m.env, Environment.callAll_append, ← m.env_call]
      rfl

theorem Node.env_evalAll : ∀ (ns : List Node) (last : Value) (m : Machine),
    (Node.evalAll ns last m).2.env = m.env.callAll (Node.callsAll ns m)
  | [], _, m => (m.env.callAll_nil).symm
  | n :: ns, _, m =>
      Outcome.env_andThen (Node.env_eval n m) fun v m => Node.env_evalAll ns v m

end

-- =================================================================== runs

/-- Only the environment matters to what evaluation makes of it, and to
whether it succeeds. -/
theorem Node.eval_congr (n : Node) {m m' : Machine} (h : m'.env = m.env) :
    (n.eval m').1 = (n.eval m).1 ∧ (n.eval m').2.env = (n.eval m).2.env := by
  obtain ⟨env, trace⟩ := m
  obtain ⟨env', trace'⟩ := m'
  cases h
  rw [n.eval_trace env trace, n.eval_trace env trace']
  exact ⟨rfl, rfl⟩

/-- A lazy run leaves the environment that evaluating the statements leaves,
whatever is told of lexical errors on the way. -/
theorem Cursor.env_run (report : Reporter) (c : Cursor) (last : Value) {m m' : Machine}
    (h : m'.env = m.env) :
    (c.run report last m').2.env = (Node.evalAll c.program.1 last m).2.env := by
  suffices hparsed : (c.run report last m').2.env = (c.runParsed last m).2.env from hparsed
  induction c, last, m' using run_induction report generalizing m with
  | ended hstep =>
      rw [run_ended hstep, runParsed_none hstep]
      exact h
  | rejected hstep =>
      rw [run_rejected hstep, runParsed_error hstep]
      exact h
  | @faulted c last m' c' n fault m'' hstep heval =>
      have htell : (m'.tell report c').env = m.env := h
      have hn := n.eval_congr htell
      rw [heval] at hn
      have hm : n.eval m = (.error fault, (n.eval m).2) := Prod.ext hn.1.symm rfl
      rw [run_faulted hstep heval, runParsed_ok hstep, hm]
      exact hn.2
  | @step c last m' c' n v m'' hstep heval ih =>
      have htell : (m'.tell report c').env = m.env := h
      have hn := n.eval_congr htell
      rw [heval] at hn
      have hm : n.eval m = (.ok v, (n.eval m).2) := Prod.ext hn.1.symm rfl
      rw [run_step hstep heval, runParsed_ok hstep, hm]
      have hrest := ih hn.2
      rwa [runParsed_forget] at hrest

/-- What a text is evaluated to as an expression: its tree, or nothing if it
does not parse. -/
def expressionOf (source : String) : List Node :=
  match (Cursor.ofSource source).expression.1 with
  | .ok node => [node]
  | .error _ => []

/-- Evaluating a source leaves the environment that its tree leaves, if it has
one. -/
theorem env_evalSource (source : String) (report : Reporter) (m : Machine) :
    (evalSource source report m).2.env = (Node.evalAll (expressionOf source) .nil m).2.env := by
  unfold evalSource expressionOf
  rcases hparsed : (Cursor.ofSource source).expression with ⟨failure | node, c⟩
  · rfl
  · dsimp only
    rw [Outcome.asRun_eq, Node.evalAll_one]
    have htell : (m.tell report c).env = m.env := rfl
    exact (node.eval_congr htell).2

-- =================================================================== uses

/-- What a host asks of a stack of scopes: a call of its own, or that a
source be run or evaluated on it. -/
inductive ScopeUse where
  | call (call : ScopeCall)
  | run (source : String) (report : Reporter)
  | evaluate (source : String) (report : Reporter)

/-- The trees that are evaluated in a use. -/
def ScopeUse.trees : ScopeUse → List Node
  | .call _ => []
  | .run source _ => (Cursor.ofSource source).program.1
  | .evaluate source _ => expressionOf source

/-- The calls that the host makes itself. -/
def ScopeUse.own : ScopeUse → List ScopeCall
  | .call c => [c]
  | .run _ _ | .evaluate _ _ => []

/-- All calls that a use makes of a machine. -/
def ScopeUse.calls (u : ScopeUse) (m : Machine) : List ScopeCall :=
  u.own ++ Node.callsAll u.trees m

namespace Machine

/-- The machine after a use, whether or not it failed. -/
def use (m : Machine) : ScopeUse → Machine
  | .call c => m.call c
  | .run source report => (runSource source report m).2
  | .evaluate source report => (evalSource source report m).2

def useAll (m : Machine) (uses : List ScopeUse) : Machine :=
  uses.foldl use m

/-- All calls that some uses make, one after the other. -/
def callsOf (m : Machine) : List ScopeUse → List ScopeCall
  | [] => []
  | u :: uses => u.calls m ++ (m.use u).callsOf uses

/-- What a use does to the environment are its calls. -/
theorem env_use (m : Machine) (u : ScopeUse) :
    (m.use u).env = m.env.callAll (u.calls m) := by
  cases u with
  | call c =>
      rw [ScopeUse.calls, ScopeUse.trees, Node.callsAll, List.append_nil]
      exact m.env_call c
  | run source report =>
      rw [ScopeUse.calls, ScopeUse.own, List.nil_append, ← Node.env_evalAll _ .nil]
      exact Cursor.env_run report (Cursor.ofSource source) .nil rfl
  | evaluate source report =>
      rw [ScopeUse.calls, ScopeUse.own, List.nil_append, ← Node.env_evalAll _ .nil]
      exact env_evalSource source report m

theorem env_useAll (m : Machine) (uses : List ScopeUse) :
    (m.useAll uses).env = m.env.callAll (m.callsOf uses) := by
  induction uses generalizing m with
  | nil => exact (m.env.callAll_nil).symm
  | cons u uses ih =>
      rw [callsOf, Environment.callAll_append, ← m.env_use u]
      exact ih (m.use u)

/-- Uses in two parts are made one part after the other. -/
theorem useAll_append (m : Machine) (rs rs' : List ScopeUse) :
    m.useAll (rs ++ rs') = (m.useAll rs).useAll rs' :=
  List.foldl_append

end Machine

end Lox

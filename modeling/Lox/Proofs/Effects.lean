/-
Evaluation does not read what it has written.

The effects so far take no part in evaluation; it only adds to them. Said as
an equation: putting a trace before that of the machine and then evaluating
is evaluating and then putting it before (`Node.eval_after`). Every
primitive of the machine commutes in this way, and so does going on after an
outcome, so each form of node does.

What is done to the scopes writes at most a log record (`Machine.Logs`), and
that does not show on standard output. What a run shows there is then a
matter of pieces: machines with the same environment that have shown the
same so far (`Alike`) give the same value or fault, and are alike again
afterwards, whatever else was logged in between.
-/
import Lox.Eval

namespace Lox

-- ================================================================= traces

/-- Standard output is written in order. -/
theorem Trace.stdout_append (t u : Trace) : (t ++ u).stdout = t.stdout ++ u.stdout := by
  unfold Trace.stdout
  rw [List.map_append, String.join_append]

-- =============================================================== machines

/-- The machine with some effects before its own. -/
def Machine.after (m : Machine) (t : Trace) : Machine :=
  { m with trace := t ++ m.trace }

/-- The outcome with some effects before those of its machine. -/
def Outcome.after {α : Type} (r : Outcome α) (t : Trace) : Outcome α :=
  (r.1, r.2.after t)

namespace Machine

variable (m : Machine) (t : Trace)

/-- What has been shown before is no part of the environment. -/
@[simp]
theorem env_after : (m.after t).env = m.env := rfl

/-- An effect comes behind all that has been shown before. -/
theorem emit_after (effect : Effect) : (m.after t).emit effect = (m.emit effect).after t := by
  unfold emit after
  dsimp only
  rw [List.append_assoc]

/-- Binding a name logs behind what has been shown before. -/
theorem assign_after (x : String) (v : Value) :
    (m.after t).assign x v = (m.assign x v).after t := by
  unfold assign
  rw [env_after]
  cases m.env with
  | null => rfl
  | stack s => rfl

theorem declare_after (x : String) : (m.after t).declare x = (m.declare x).after t := by
  unfold declare
  rw [env_after]
  cases m.env with
  | null => rfl
  | stack s =>
      dsimp only
      split
      · rfl
      · exact emit_after { m with env := .stack (s.declare x) } t _

theorem push_after (name : String) : (m.after t).push name = (m.push name).after t := by
  unfold push
  rw [env_after]
  cases m.env with
  | null => rfl
  | stack s => exact emit_after { m with env := .stack (s.push name) } t _

/-- Leaving a scope, if there is one to leave, does not look at what was
written. -/
theorem pop_after : (m.after t).pop = (m.pop).after t := by
  unfold pop
  rw [env_after]
  cases m.env with
  | null => rfl
  | stack s =>
      dsimp only
      rcases s.pop? with _ | ⟨popped, below⟩
      · rfl
      · have h := emit_after { m with env := .stack below } t
          (.debug .scopes (depthText "Popped" popped.name below.depth))
        exact Prod.ext rfl h

/-- What has been shown takes no part in finding names. -/
theorem isDefined_after (x : String) : (m.after t).isDefined x = m.isDefined x := rfl

end Machine

-- ================================================================ logging

/-- `m.Logs m'`: between `m` and `m'` at most a log record was written, as by
all that is done to the scopes. -/
def Machine.Logs (m m' : Machine) : Prop :=
  m'.trace = m.trace ∨ ∃ record, m'.trace = m.trace ++ [.log record]

namespace Machine

variable (m : Machine)

theorem Logs.refl : m.Logs m :=
  .inl rfl

/-- A debug record on a changed environment is a record and nothing else. -/
theorem logs_debug (env : Environment) (logger : Logger) (text : String) :
    m.Logs ({ m with env }.emit (.debug logger text)) :=
  .inr ⟨⟨.debug, logger, text⟩, rfl⟩

/-- Binding a name shows at most a record. -/
theorem logs_assign (x : String) (v : Value) : m.Logs (m.assign x v) := by
  unfold assign
  split
  · exact .refl m
  · exact .refl m

theorem logs_declare (x : String) : m.Logs (m.declare x) := by
  unfold declare
  split
  · exact .refl m
  · split
    · exact .refl m
    · exact m.logs_debug _ _ _

theorem logs_push (name : String) : m.Logs (m.push name) := by
  unfold push
  split
  · exact .refl m
  · exact m.logs_debug _ _ _

/-- Leaving a scope shows at most a record. -/
theorem logs_pop : m.Logs (m.pop).2 := by
  unfold pop
  split
  · exact .refl m
  · split
    · exact .refl m
    · exact m.logs_debug _ _ _

/-- A log record does not show on standard output. -/
theorem Logs.stdout {m m' : Machine} (h : m.Logs m') : m'.trace.stdout = m.trace.stdout := by
  rcases h with htrace | ⟨record, htrace⟩
  · rw [htrace]
  · rw [htrace, Trace.stdout_append]
    exact String.append_empty

end Machine

/-- Leaving a block shows at most a record, whatever has happened inside. -/
theorem logs_leaveBlock (r : Outcome Value) : r.2.Logs (leaveBlock r).2 := by
  have hpop := r.2.logs_pop
  unfold leaveBlock
  split
  · next heq => rwa [heq] at hpop
  · next heq => rwa [heq] at hpop

-- ============================================================= evaluation

section

variable (m : Machine) (t : Trace)

/-- Going on after success keeps what has been shown before in front, if the
rest does. -/
theorem Outcome.andThen_after {α β : Type} (r : Outcome α) {k : α → Machine → Outcome β}
    (hk : ∀ a m, k a (m.after t) = (k a m).after t) :
    (r.after t).andThen k = (r.andThen k).after t := by
  rcases r with ⟨fault | a, m⟩
  · rfl
  · exact hk a m

/-- An operator shows nothing. -/
theorem applied_after (r : Except TypeFault Value) :
    applied r (m.after t) = (applied r m).after t := by
  cases r <;> rfl

/-- A print comes behind what has been shown before. -/
theorem printed_after (v : Value) : printed v (m.after t) = (printed v m).after t := by
  unfold printed
  split
  · rw [Machine.emit_after]
    rfl
  · rfl

theorem reassigned_after (x : String) (v : Value) :
    reassigned x v (m.after t) = (reassigned x v m).after t := by
  unfold reassigned
  rw [Machine.isDefined_after, Machine.assign_after]
  split <;> rfl

/-- A block is left the same, whatever has been shown before it. -/
theorem leaveBlock_after (r : Outcome Value) :
    leaveBlock (r.after t) = (leaveBlock r).after t := by
  unfold leaveBlock Outcome.after
  dsimp only
  rw [Machine.pop_after]
  rcases r.2.pop with ⟨fault | _, m⟩ <;> rfl

end

mutual

/-- Evaluation commutes with effects put before those of the machine. -/
theorem Node.eval_after (t : Trace) : ∀ (n : Node) (m : Machine),
    n.eval (m.after t) = (n.eval m).after t
  | .literal v, m => rfl
  | .variable x, m => rfl
  | .unary op operand, m => by
      simp only [Node.eval]
      rw [Node.eval_after t operand m]
      exact Outcome.andThen_after t _ fun v m => applied_after m t _
  | .binary op left right, m => by
      simp only [Node.eval]
      rw [Node.eval_after t left m]
      apply Outcome.andThen_after
      intro l m
      rw [Node.eval_after t right m]
      exact Outcome.andThen_after t _ fun v m => applied_after m t _
  | .assignment x value, m => by
      simp only [Node.eval]
      rw [Node.eval_after t value m]
      apply Outcome.andThen_after
      intro v m
      rw [Machine.assign_after]
      rfl
  | .exprStmt expr, m => Node.eval_after t expr m
  | .printStmt expr, m => by
      simp only [Node.eval]
      rw [Node.eval_after t expr m]
      exact Outcome.andThen_after t _ fun v m => printed_after m t v
  | .declare x, m => by
      simp only [Node.eval]
      rw [Machine.declare_after]
      rfl
  | .define x init, m => by
      simp only [Node.eval]
      rw [Node.eval_after t init m]
      apply Outcome.andThen_after
      intro v m
      rw [Machine.declare_after, Machine.assign_after]
      rfl
  | .assignStmt x value, m => by
      simp only [Node.eval]
      rw [Node.eval_after t value m]
      exact Outcome.andThen_after t _ fun v m => reassigned_after m t x v
  | .block ss, m => by
      simp only [Node.eval]
      rw [Machine.push_after, Node.evalAll_after t ss]
      exact leaveBlock_after t _
  | .unknown, m => rfl

theorem Node.evalAll_after (t : Trace) : ∀ (ns : List Node) (last : Value) (m : Machine),
    Node.evalAll ns last (m.after t) = (Node.evalAll ns last m).after t
  | [], last, m => rfl
  | n :: ns, last, m => by
      simp only [Node.evalAll]
      rw [Node.eval_after t n m]
      exact Outcome.andThen_after t _ fun v m => Node.evalAll_after t ns v m

end

/-- Evaluation adds its effects to those before it, and is otherwise the same
without them. -/
theorem Node.eval_trace (n : Node) (env : Environment) (trace : Trace) :
    n.eval ⟨env, trace⟩ = (n.eval ⟨env, []⟩).after trace := by
  rw [← Node.eval_after]
  unfold Machine.after
  rw [List.append_nil]

-- ========================================================= alike machines

/-- Machines with the same environment that have shown the same. -/
structure Machine.Alike (m m' : Machine) : Prop where
  env : m'.env = m.env
  stdout : m'.trace.stdout = m.trace.stdout

namespace Machine

theorem Alike.refl (m : Machine) : m.Alike m :=
  ⟨rfl, rfl⟩

theorem Alike.trans {m m' m'' : Machine} (h : m.Alike m') (h' : m'.Alike m'') : m.Alike m'' :=
  ⟨h'.env.trans h.env, h'.stdout.trans h.stdout⟩

/-- A machine is one without effects, after its effects. -/
theorem eq_after (m : Machine) : m = ({ m with trace := [] } : Machine).after m.trace := by
  unfold after
  rw [List.append_nil]

/-- Alike machines evaluate a node alike. -/
theorem Alike.eval {m m' : Machine} (h : m.Alike m') (n : Node) :
    (n.eval m').1 = (n.eval m).1 ∧ (n.eval m).2.Alike (n.eval m').2 := by
  have hm := Node.eval_after m.trace n { m with trace := [] }
  have hm' := Node.eval_after m'.trace n { m' with trace := [] }
  rw [← eq_after] at hm hm'
  rw [hm, hm', h.env]
  refine ⟨rfl, rfl, ?_⟩
  show Trace.stdout (m'.trace ++ _) = Trace.stdout (m.trace ++ _)
  rw [Trace.stdout_append, Trace.stdout_append, h.stdout]

end Machine

end Lox

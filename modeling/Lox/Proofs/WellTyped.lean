/-
Trees of the right form, and what can go wrong with them.

A tree built by hand can have an operator in the wrong form, a statement
where an expression belongs, or a missing value for a literal. Trees that
the grammar derives have none of that (`isExpression_of_derives`,
`isStatement_of_statement`).

Evaluating such a tree, in whatever environment, never yields a missing
value, and it faults in two ways only: an operator is given values that it
does not accept, or a variable has no value (`IsStatement.eval_sound`). The
environment needs no condition, because a variable that is bound to a
missing value counts as having none. That a block can always be left is not
a matter of form; it is taken from the account of the scopes.
-/
import Lox.Proofs.Grammar
import Lox.Proofs.Scoping

namespace Lox

-- ============================================================== the form

namespace Node

/-- An expression: operators stand in their own form, and every literal has a
value. -/
inductive IsExpression : Node → Prop where
  | literal {v : Value} : v ≠ .absent → IsExpression (.literal v)
  | name (x : String) : IsExpression (.variable x)
  | unary (op : UnaryOp) {operand : Node} :
      IsExpression operand → IsExpression (.unary (.unary op) operand)
  | binary (op : BinaryOp) {left right : Node} :
      IsExpression left → IsExpression right → IsExpression (.binary (.binary op) left right)
  | assignment (x : String) {value : Node} :
      IsExpression value → IsExpression (.assignment x value)

/-- A statement made of such expressions. -/
inductive IsStatement : Node → Prop where
  | exprStmt {e : Node} : e.IsExpression → IsStatement (.exprStmt e)
  | printStmt {e : Node} : e.IsExpression → IsStatement (.printStmt e)
  | declare (x : String) : IsStatement (.declare x)
  | define (x : String) {init : Node} : init.IsExpression → IsStatement (.define x init)
  | assignStmt (x : String) {value : Node} :
      value.IsExpression → IsStatement (.assignStmt x value)
  | block {ss : List Node} : (∀ s ∈ ss, IsStatement s) → IsStatement (.block ss)

end Node

-- ----------------------------------------------------- trees of a program

namespace Grammar

/-- No token stands for an absent value. -/
theorem literal?_ne_absent {t : Token} {v : Value} (h : literal? t = some v) : v ≠ .absent := by
  rintro rfl
  unfold literal? at h
  split at h
  · obtain ⟨x, -, hx⟩ := Option.map_eq_some_iff.1 h
    cases hx
  all_goals cases h

/-- What the grammar derives has the form of an expression. -/
theorem isExpression_of_derives {l : Level} {ts : List Token} {e : Node} (h : Derives l ts e) :
    e.IsExpression := by
  induction h with
  | assignment _ _ _ ih => exact .assignment _ ih
  | binary _ _ _ ihl ihr => exact .binary _ ihl ihr
  | unary _ _ ih => exact .unary _ ih
  | literal hv => exact .literal (literal?_ne_absent hv)
  | name _ => exact .name _
  | group _ _ _ ih => exact .unary .group ih
  | tighter _ ih => exact ih

mutual

/-- What it takes for a statement has the form of one. -/
theorem isStatement_of_statement {ts : List Token} {s : Node} : Statement ts s → s.IsStatement
  | .print _ he _ => .printStmt (isExpression_of_derives he)
  | .declare _ _ _ => .declare _
  | .define _ _ _ he _ => .define _ (isExpression_of_derives he)
  | .block _ hss _ => .block (isStatement_of_statements hss)
  | .assign he _ => by
      cases isExpression_of_derives he with
      | assignment _ hvalue => exact .assignStmt _ hvalue
  | .expression he _ _ => .exprStmt (isExpression_of_derives he)

theorem isStatement_of_statements {ts : List Token} {ss : List Node} :
    Statements ts ss → ∀ s ∈ ss, s.IsStatement
  | .nil => fun s hs => by cases hs
  | .cons hs hss => List.forall_mem_cons.2
      ⟨isStatement_of_statement hs, isStatement_of_statements hss⟩

end

end Grammar

-- ============================================================= operators

/-- Whether the objection is to an operator in the wrong form, rather than to
the values it is given. -/
def TypeFault.isMisplaced : TypeFault → Bool
  | .unsupportedUnary _ | .unsupportedBinary _ => true
  | _ => false

/-- A result that is there, or an objection to the values. -/
def SoundResult : Except TypeFault Value → Prop
  | .ok v => v ≠ .absent
  | .error fault => fault.isMisplaced = false

/-- A prefix operator is sound on a value that is there. -/
theorem UnaryOp.soundResult_apply (op : UnaryOp) {v : Value} (h : v ≠ .absent) :
    SoundResult (op.apply v) := by
  cases op with
  | group => exact h
  | positive | negative | not =>
      cases v <;> simp [UnaryOp.apply, SoundResult, TypeFault.isMisplaced]

/-- An operator on numbers is sound if it computes values and objects to
values. -/
theorem Value.soundResult_onReals {f : Double → Double → Value}
    {fault : Value → Value → TypeFault} (hf : ∀ x y, f x y ≠ .absent)
    (hfault : ∀ l r, (fault l r).isMisplaced = false) (left right : Value) :
    SoundResult (Value.onReals f fault left right) := by
  unfold Value.onReals
  split
  · exact hf _ _
  · exact hfault _ _

theorem Value.soundResult_onBooleans {f : Bool → Bool → Bool} {fault : Value → Value → TypeFault}
    (hfault : ∀ l r, (fault l r).isMisplaced = false) (left right : Value) :
    SoundResult (Value.onBooleans f fault left right) := by
  unfold Value.onBooleans
  split
  · simp [SoundResult]
  · exact hfault _ _

theorem Value.soundResult_add (left right : Value) : SoundResult (left.add right) := by
  unfold Value.add
  split
  · simp [SoundResult]
  · simp [SoundResult]
  · rfl

/-- Every binary operator is sound. -/
theorem BinaryOp.soundResult_apply (op : BinaryOp) (left right : Value) :
    SoundResult (op.apply left right) := by
  cases op with
  | plus => exact left.soundResult_add right
  | equalTo | notEqualTo => simp [BinaryOp.apply, SoundResult]
  | or | and => exact Value.soundResult_onBooleans (fun _ _ => rfl) left right
  | minus | times | div | lessThan | greaterThan | lessThanOrEqualTo | greaterThanOrEqualTo =>
      exact Value.soundResult_onReals (fun _ _ => by simp) (fun _ _ => rfl) left right

-- ============================================================ evaluation

/-- The faults that the evaluation of a program can end in. -/
inductive Fault.Ordinary : Fault → Prop where
  | illTyped {fault : TypeFault} : fault.isMisplaced = false → Ordinary (.illTyped fault)
  | undefined (x : String) : Ordinary (.undefined x)

/-- The search takes a missing value for no value. -/
theorem Machine.lookup_ne_absent {m : Machine} {x : String} {v : Value}
    (h : m.lookup x = some v) : v ≠ .absent := by
  unfold lookup at h
  split at h
  · cases h
  · next s _ =>
      rintro rfl
      unfold ScopeStack.lookup at h
      split at h
      · cases h
      · next hne => exact hne h

/-- A value that is there can be displayed. -/
theorem Value.exists_display {v : Value} (h : v ≠ .absent) : ∃ text, v.display = .ok text := by
  cases v with
  | absent => exact absurd rfl h
  | nil | bool | string | real => exact ⟨_, rfl⟩

namespace Outcome

/-- A value that is there, or an ordinary fault. -/
def Sound (r : Outcome Value) : Prop :=
  match r.1 with
  | .ok v => v ≠ .absent
  | .error fault => fault.Ordinary

/-- A sound computation goes on soundly if its rest is sound for values that are
there. -/
theorem Sound.andThen {r : Outcome Value} {k : Value → Machine → Outcome Value} (h : r.Sound)
    (hk : ∀ v m, v ≠ .absent → (k v m).Sound) : (r.andThen k).Sound := by
  rcases r with ⟨fault | v, m⟩
  · exact h
  · exact hk v m h

/-- Applying an operator with a sound result is sound. -/
theorem sound_applied {r : Except TypeFault Value} (h : SoundResult r) (m : Machine) :
    (applied r m).Sound := by
  cases r with
  | ok v => exact h
  | error fault => exact .illTyped h

/-- Looking up a name is sound: it gives a value that is there, or misses the
name. -/
theorem sound_get (x : String) (m : Machine) : Sound (m.get x, m) := by
  unfold Machine.get
  split
  · next v hv => exact Machine.lookup_ne_absent hv
  · exact .undefined x

/-- Printing a value that is there is sound. -/
theorem sound_printed {v : Value} (h : v ≠ .absent) (m : Machine) : (printed v m).Sound := by
  obtain ⟨text, htext⟩ := v.exists_display h
  simp [printed, htext, Sound]

/-- An assignment statement of a value that is there is sound. -/
theorem sound_reassigned (x : String) {v : Value} (h : v ≠ .absent) (m : Machine) :
    (reassigned x v m).Sound := by
  unfold reassigned
  split
  · exact h
  · exact .undefined x

/-- A block ends as its statements do, since its scope is there to be
popped. -/
theorem sound_leaveBlock {ss : List Node} {m : Machine}
    (h : (Node.evalAll ss .nil (m.push blockName)).Sound) :
    (leaveBlock (Node.evalAll ss .nil (m.push blockName))).Sound := by
  obtain ⟨hfst, -⟩ := leaveBlock_eq (Node.tidy_evalAll ss .nil (m.push blockName)).env
  unfold Sound
  rw [hfst]
  exact h

/-- Statements in order are sound if each is. -/
theorem sound_evalAll {ss : List Node} (h : ∀ s ∈ ss, ∀ m, (s.eval m).Sound) {last : Value}
    (hlast : last ≠ .absent) (m : Machine) : (Node.evalAll ss last m).Sound := by
  induction ss generalizing last m with
  | nil => exact hlast
  | cons s ss ih =>
      rw [List.forall_mem_cons] at h
      rw [Node.evalAll]
      exact (h.1 m).andThen fun v m hv => ih h.2 hv m

end Outcome

namespace Node

/-- An expression evaluates soundly on any machine. -/
theorem IsExpression.eval_sound {e : Node} (h : e.IsExpression) (m : Machine) :
    (e.eval m).Sound := by
  induction h generalizing m with
  | literal hv => exact hv
  | name x => exact Outcome.sound_get x m
  | unary op _ ih =>
      rw [Node.eval]
      exact (ih m).andThen fun v m hv => Outcome.sound_applied (op.soundResult_apply hv) m
  | binary op _ _ ihl ihr =>
      rw [Node.eval]
      apply (ihl m).andThen
      intro l m _
      exact (ihr m).andThen fun r m _ => Outcome.sound_applied (op.soundResult_apply l r) m
  | assignment x _ ih =>
      rw [Node.eval]
      exact (ih m).andThen fun v m hv => hv

/-- A statement of the right form has a value, or faults over values that an
operator does not accept or a variable without a value. -/
theorem IsStatement.eval_sound {s : Node} (h : s.IsStatement) (m : Machine) :
    (s.eval m).Sound := by
  induction h generalizing m with
  | exprStmt he =>
      rw [Node.eval]
      exact he.eval_sound m
  | printStmt he =>
      rw [Node.eval]
      exact (he.eval_sound m).andThen fun v m hv => Outcome.sound_printed hv m
  | declare x => simp [Node.eval, Outcome.Sound]
  | define x he =>
      rw [Node.eval]
      apply (he.eval_sound m).andThen
      intro v m _
      simp [Outcome.Sound]
  | assignStmt x he =>
      rw [Node.eval]
      exact (he.eval_sound m).andThen fun v m hv => Outcome.sound_reassigned x hv m
  | block _ ih =>
      rw [Node.eval]
      exact Outcome.sound_leaveBlock (Outcome.sound_evalAll ih (by simp) _)

end Node

end Lox

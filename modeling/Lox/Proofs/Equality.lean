/-
Equality of values, and what it leaves open to see.

Values are equal if they are the same or are both not a number
(`Value.equal_iff`). That makes an equivalence, and one that operators and
texts respect: whatever is not a number absorbs the other operand of an
arithmetic operation, compares with nothing, is no zero, and has one name in
every text. Nothing else is identified. A zero differs from its negative, and a
quotient tells them apart.

Results are compared by `EqualAnswers`: equal values, or faults that say the
same.
-/
import Lox.Proofs.Rounding
import Lox.Value.Apply

namespace Lox

-- =============================================================== doubles

namespace Double

variable {x x' y y' : Double}

/-- Keys tell doubles apart, except those that are not numbers. -/
theorem key_eq_iff : x.key = y.key ↔ x = y ∨ (x.isNaN = true ∧ y.isNaN = true) := by
  have hnan : ∀ z : Double, z.bits = nan.bits → z.isNaN = true := by
    intro z hz
    have heq : z = nan := congrArg Double.mk hz
    rw [heq]
    decide
  unfold key
  constructor
  · intro h
    split at h
    · next hx =>
        split at h
        · next hy => exact .inr ⟨hx, hy⟩
        · exact .inr ⟨hx, hnan y h.symm⟩
    · split at h
      · next hx hy => exact absurd (hnan x h) hx
      · exact .inl (congrArg Double.mk h)
  · rintro (rfl | ⟨hx, hy⟩)
    · rfl
    · rw [if_pos hx, if_pos hy]

/-- What gives the same whenever an operand is not a number respects
equality. -/
theorem congr_of_absorbs {α : Type} {f : Double → Double → α} {c : α}
    (hf : ∀ x y : Double, x.isNaN = true ∨ y.isNaN = true → f x y = c) (hx : x.key = x'.key)
    (hy : y.key = y'.key) : f x y = f x' y' := by
  rcases key_eq_iff.1 hx with rfl | ⟨hnan, hnan'⟩
  · rcases key_eq_iff.1 hy with rfl | ⟨hnan, hnan'⟩
    · rfl
    · rw [hf x y (.inr hnan), hf x y' (.inr hnan')]
  · rw [hf x y (.inl hnan), hf x' y' (.inl hnan')]

/-- A change of sign makes nothing a number, and takes nothing from the
numbers. -/
theorem isNaN_neg (x : Double) : x.neg.isNaN = x.isNaN := by
  rw [isNaN, magnitude_neg, isNaN]

/-- What is not a number is not a zero. -/
theorem isZero_of_isNaN (hx : x.isNaN = true) : x.isZero = false := by
  have hmagnitude : infinityBits < x.magnitude := of_decide_eq_true hx
  exact beq_false_of_ne (Nat.ne_of_gt (Nat.zero_lt_of_lt hmagnitude))

section absorbs

variable (x y : Double) (h : x.isNaN = true ∨ y.isNaN = true)

include h

/-- A sum with what is not a number is the one such value that arithmetic
gives. -/
theorem add_of_isNaN : x.add y = nan := by
  rw [add, if_pos (Bool.or_eq_true_iff.2 h)]

theorem sub_of_isNaN : x.sub y = nan :=
  add_of_isNaN x y.neg (by rwa [isNaN_neg])

theorem mul_of_isNaN : x.mul y = nan := by
  rw [mul, if_pos (Bool.or_eq_true_iff.2 h)]

theorem div_of_isNaN : x.div y = nan := by
  rw [div, if_pos (Bool.or_eq_true_iff.2 h)]

/-- What is not a number compares as false, on either side. -/
theorem lt_of_isNaN : x.lt y = false := by
  rcases h with h | h <;> simp [lt, h]

theorem le_of_isNaN : x.le y = false := by
  rcases h with h | h <;> simp [le, h]

end absorbs

/-- A change of sign keeps doubles alike. -/
theorem key_neg_congr (h : x.key = y.key) : x.neg.key = y.neg.key := by
  rcases key_eq_iff.1 h with rfl | ⟨hx, hy⟩
  · rfl
  · exact key_eq_iff.2 (.inr ⟨by rwa [isNaN_neg], by rwa [isNaN_neg]⟩)

/-- Whether a double is a zero is a matter of its key. -/
theorem isZero_congr (h : x.key = y.key) : x.isZero = y.isZero := by
  rcases key_eq_iff.1 h with rfl | ⟨hx, hy⟩
  · rfl
  · rw [isZero_of_isNaN hx, isZero_of_isNaN hy]

end Double

-- ================================================================ values

namespace Value

variable {v w : Value}

/-- Equal values are the same or are both not a number. -/
theorem equal_iff :
    v.equal w = true
      ↔ v = w ∨ ∃ x y, v = .real x ∧ w = .real y ∧ x.isNaN = true ∧ y.isNaN = true := by
  constructor
  · intro h
    unfold equal at h
    split at h
    · exact .inl rfl
    · exact .inl (congrArg bool (eq_of_beq h))
    · exact .inl (congrArg string (eq_of_beq h))
    · next x y =>
        rcases Double.key_eq_iff.1 (eq_of_beq h) with heq | hnan
        · exact .inl (congrArg real heq)
        · exact .inr ⟨x, y, rfl, rfl, hnan⟩
    · exact .inl rfl
    · cases h
  · rintro (rfl | ⟨x, y, rfl, rfl, hnan⟩)
    · cases v <;> simp [equal]
    · exact beq_iff_eq.2 (Double.key_eq_iff.2 (.inr hnan))

/-- Numbers are equal by their keys. -/
theorem equal_real (x y : Double) : (real x).equal (real y) = true ↔ x.key = y.key :=
  beq_iff_eq

/-- Equality is reflexive, even on what is not a number, symmetric and
transitive. -/
theorem equal_equivalence : Equivalence fun v w : Value => v.equal w = true where
  refl v := equal_iff.2 (.inl rfl)
  symm h := by
    rcases equal_iff.1 h with rfl | ⟨x, y, rfl, rfl, hx, hy⟩
    · exact h
    · exact equal_iff.2 (.inr ⟨y, x, rfl, rfl, hy, hx⟩)
  trans h h' := by
    rcases equal_iff.1 h with rfl | ⟨x, y, rfl, rfl, hx, hy⟩
    · exact h'
    · rcases equal_iff.1 h' with rfl | ⟨-, z, -, rfl, -, hz⟩
      · exact h
      · exact equal_iff.2 (.inr ⟨x, z, rfl, rfl, hx, hz⟩)

theorem equal_refl (v : Value) : v.equal v = true :=
  equal_equivalence.refl v

/-- Only numbers are equal to a number, and they have its key. -/
theorem exists_real (x : Double) (h : (real x).equal w = true) :
    ∃ y, w = .real y ∧ x.key = y.key := by
  rcases equal_iff.1 h with rfl | ⟨x', y, hx', rfl, hx, hy⟩
  · exact ⟨x, rfl, rfl⟩
  · cases hx'
    exact ⟨y, rfl, Double.key_eq_iff.2 (.inr ⟨hx, hy⟩)⟩

/-- Apart from reals only the same values are equal. -/
theorem eq_of_equal (h : v.equal w = true) (hv : ∀ x, v ≠ .real x) : v = w := by
  rcases equal_iff.1 h with heq | ⟨x, y, hx, -⟩
  · exact heq
  · exact absurd hx (hv x)

-- ----------------------------------------------------------------- texts

/-- Equal values are displayed alike. -/
theorem display_congr (h : v.equal w = true) : v.display = w.display := by
  rcases equal_iff.1 h with rfl | ⟨x, y, rfl, rfl, hx, hy⟩
  · rfl
  · rw [display, display, Double.displayText, Double.displayText, if_pos hx, if_pos hy]

/-- Equal values are quoted alike in messages. -/
theorem messageText_congr (h : v.equal w = true) : v.messageText = w.messageText := by
  rcases equal_iff.1 h with rfl | ⟨x, y, rfl, rfl, hx, hy⟩
  · rfl
  · rw [messageText, messageText, Double.messageText, Double.messageText, if_pos hx, if_pos hy]

end Value

-- ============================================================= operators

/-- Answers that are equal values, or faults in a given relation. -/
inductive EqualAnswers {ε : Type} (R : ε → ε → Prop) : Except ε Value → Except ε Value → Prop where
  | ok {v w : Value} : v.equal w = true → EqualAnswers R (.ok v) (.ok w)
  | error {f g : ε} : R f g → EqualAnswers R (.error f) (.error g)

/-- Objections that are the same but for equal operands. -/
inductive TypeFault.Equal : TypeFault → TypeFault → Prop where
  | same (f : TypeFault) : Equal f f
  | cannotAdd {v v' w w' : Value} : v.equal v' = true → w.equal w' = true →
      Equal (.cannotAdd v w) (.cannotAdd v' w')
  | cannotSubtract {v v' w w' : Value} : v.equal v' = true → w.equal w' = true →
      Equal (.cannotSubtract v w) (.cannotSubtract v' w')
  | cannotMultiply {v v' w w' : Value} : v.equal v' = true → w.equal w' = true →
      Equal (.cannotMultiply v w) (.cannotMultiply v' w')
  | cannotDivide {v v' w w' : Value} : v.equal v' = true → w.equal w' = true →
      Equal (.cannotDivide v w) (.cannotDivide v' w')
  | cannotCompare (op : BinaryOp) {v v' w w' : Value} : v.equal v' = true → w.equal w' = true →
      Equal (.cannotCompare op v w) (.cannotCompare op v' w')
  | cannotConnect (op : BinaryOp) {v v' w w' : Value} : v.equal v' = true → w.equal w' = true →
      Equal (.cannotConnect op v w) (.cannotConnect op v' w')

/-- They say the same. -/
theorem TypeFault.Equal.message {f g : TypeFault} (h : f.Equal g) : f.message = g.message := by
  cases h with
  | same => rfl
  | cannotAdd hv hw | cannotSubtract hv hw | cannotMultiply hv hw | cannotDivide hv hw
  | cannotCompare _ hv hw | cannotConnect _ hv hw =>
      unfold TypeFault.message
      dsimp only
      rw [Value.messageText_congr hv, Value.messageText_congr hw]

/-- An answer is equal to itself. -/
theorem EqualAnswers.same {ε : Type} {R : ε → ε → Prop} (hR : ∀ f, R f f) (r : Except ε Value) :
    EqualAnswers R r r := by
  cases r with
  | ok v => exact .ok v.equal_refl
  | error f => exact .error (hR f)

variable {v v' w w' : Value}

/-- A prefix operator gives equal answers on equal operands. -/
theorem UnaryOp.apply_congr (op : UnaryOp) (hv : v.equal v' = true) :
    EqualAnswers TypeFault.Equal (op.apply v) (op.apply v') := by
  rcases Value.equal_iff.1 hv with rfl | ⟨x, y, rfl, rfl, hx, hy⟩
  · exact .same .same _
  · have hkey : x.key = y.key := Double.key_eq_iff.2 (.inr ⟨hx, hy⟩)
    cases op with
    | group | positive => exact .ok hv
    | negative => exact .ok ((Value.equal_real _ _).2 (Double.key_neg_congr hkey))
    | not =>
        show EqualAnswers _ (.ok (.bool x.isZero)) (.ok (.bool y.isZero))
        rw [Double.isZero_congr hkey]
        exact .same .same _

theorem Operator.applyUnary_congr (op : Operator) (hv : v.equal v' = true) :
    EqualAnswers TypeFault.Equal (op.applyUnary v) (op.applyUnary v') := by
  cases op with
  | unary op => exact op.apply_congr hv
  | binary op => exact .error (.same _)
  | assign => exact .error (.same _)

section binary

variable (hv : v.equal v' = true) (hw : w.equal w' = true)

include hv hw

/-- Equality does not tell equal values apart. -/
theorem Value.equal_congr : v.equal w = v'.equal w' := by
  rw [Bool.eq_iff_iff]
  constructor
  · intro h
    exact equal_equivalence.trans (equal_equivalence.symm hv) (equal_equivalence.trans h hw)
  · intro h
    exact equal_equivalence.trans hv (equal_equivalence.trans h (equal_equivalence.symm hw))

/-- Where both operands must be numbers: numbers alike are computed with alike,
and everything else is objected to alike. -/
theorem Value.onReals_congr {f : Double → Double → Value} {fault : Value → Value → TypeFault}
    (hf : ∀ {x x' y y' : Double}, x.key = x'.key → y.key = y'.key →
      (f x y).equal (f x' y') = true)
    (hfault : (fault v w).Equal (fault v' w')) :
    EqualAnswers TypeFault.Equal (onReals f fault v w) (onReals f fault v' w') := by
  cases v with
  | real x =>
      obtain ⟨x', rfl, hx⟩ := exists_real x hv
      cases w with
      | real y =>
          obtain ⟨y', rfl, hy⟩ := exists_real y hw
          exact .ok (hf hx hy)
      | nil | bool | string | absent =>
          obtain rfl := eq_of_equal hw fun _ h => by cases h
          exact .error hfault
  | nil | bool | string | absent =>
      obtain rfl := eq_of_equal hv fun _ h => by cases h
      exact .error hfault

/-- Where both operands must be booleans, equal operands are the same ones. -/
theorem Value.onBooleans_congr {f : Bool → Bool → Bool} {fault : Value → Value → TypeFault}
    (hfault : (fault v w).Equal (fault v' w')) :
    EqualAnswers TypeFault.Equal (onBooleans f fault v w) (onBooleans f fault v' w') := by
  rcases equal_iff.1 hv with rfl | ⟨x, y, rfl, rfl, -⟩
  · rcases equal_iff.1 hw with rfl | ⟨x, y, rfl, rfl, -⟩
    · exact .same .same _
    · cases v <;> exact .error hfault
  · exact .error hfault

/-- Sums of equal operands are equal, be it numbers or strings that are
added. -/
theorem Value.add_congr :
    EqualAnswers TypeFault.Equal (v.add w) (v'.add w') := by
  have hfault : (TypeFault.cannotAdd v w).Equal (.cannotAdd v' w') := .cannotAdd hv hw
  cases v with
  | real x =>
      obtain ⟨x', rfl, hx⟩ := exists_real x hv
      cases w with
      | real y =>
          obtain ⟨y', rfl, hy⟩ := exists_real y hw
          refine .ok ?_
          rw [Double.congr_of_absorbs Double.add_of_isNaN hx hy]
          exact equal_refl _
      | nil | bool | string | absent =>
          obtain rfl := eq_of_equal hw fun _ h => by cases h
          exact .error hfault
  | string a =>
      obtain rfl := eq_of_equal hv fun _ h => by cases h
      cases w with
      | real y =>
          obtain ⟨y', rfl, hy⟩ := exists_real y hw
          exact .error hfault
      | nil | bool | string | absent =>
          obtain rfl := eq_of_equal hw fun _ h => by cases h
          exact .same .same _
  | nil | bool | absent =>
      obtain rfl := eq_of_equal hv fun _ h => by cases h
      exact .error hfault

/-- A binary operator gives equal answers on equal operands. -/
theorem BinaryOp.apply_congr (op : BinaryOp) :
    EqualAnswers TypeFault.Equal (op.apply v w) (op.apply v' w') := by
  -- equal numbers are the same double or both no number, and then the result is one for all
  have hresult {f : Double → Double → Value} {c : Value}
      (hf : ∀ x y : Double, x.isNaN = true ∨ y.isNaN = true → f x y = c) {x x' y y' : Double}
      (hx : x.key = x'.key) (hy : y.key = y'.key) : (f x y).equal (f x' y') = true := by
    rw [Double.congr_of_absorbs hf hx hy]
    exact Value.equal_refl _
  cases op with
  | equalTo =>
      unfold apply
      rw [Value.equal_congr hv hw]
      exact .same .same _
  | notEqualTo =>
      unfold apply
      rw [Value.equal_congr hv hw]
      exact .same .same _
  | plus => exact Value.add_congr hv hw
  | minus =>
      exact Value.onReals_congr hv hw
        (hresult fun x y h => congrArg Value.real (Double.sub_of_isNaN x y h))
        (.cannotSubtract hv hw)
  | times =>
      exact Value.onReals_congr hv hw
        (hresult fun x y h => congrArg Value.real (Double.mul_of_isNaN x y h))
        (.cannotMultiply hv hw)
  | div =>
      exact Value.onReals_congr hv hw
        (hresult fun x y h => congrArg Value.real (Double.div_of_isNaN x y h))
        (.cannotDivide hv hw)
  | lessThan =>
      exact Value.onReals_congr hv hw
        (hresult fun x y h => congrArg Value.bool (Double.lt_of_isNaN x y h))
        (.cannotCompare _ hv hw)
  | greaterThan =>
      exact Value.onReals_congr hv hw
        (hresult fun x y h => congrArg Value.bool (Double.lt_of_isNaN y x h.symm))
        (.cannotCompare _ hv hw)
  | lessThanOrEqualTo =>
      exact Value.onReals_congr hv hw
        (hresult fun x y h => congrArg Value.bool (Double.le_of_isNaN x y h))
        (.cannotCompare _ hv hw)
  | greaterThanOrEqualTo =>
      exact Value.onReals_congr hv hw
        (hresult fun x y h => congrArg Value.bool (Double.le_of_isNaN y x h.symm))
        (.cannotCompare _ hv hw)
  | and | or => exact Value.onBooleans_congr hv hw (.cannotConnect _ hv hw)

end binary

theorem Operator.applyBinary_congr (op : Operator) (hv : v.equal v' = true)
    (hw : w.equal w' = true) :
    EqualAnswers TypeFault.Equal (op.applyBinary v w) (op.applyBinary v' w') := by
  cases op with
  | binary op => exact op.apply_congr hv hw
  | unary op => exact .error (.same _)
  | assign => exact .error (.same _)

end Lox

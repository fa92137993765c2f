/-
Indices that count from either end.

An index from zero on counts from the start of a sequence, one below zero
from its end. An index is a signed word of 64 bits, which is more than any
sequence needs: a number that is no word stands nowhere, and its refusal is
told apart from that of a word out of range. Places, the ends of a cut, know
no such limit: a place before the start is the start.
-/

namespace Lox.Text

/-- Why nothing stands at an index. -/
inductive IndexFault where
  /-- The sequence does not reach so far. -/
  | outOfRange
  /-- The number is not a word. -/
  | notWord
deriving DecidableEq, Repr

/-- The message of a fault, for a sequence of the given sort. -/
def IndexFault.message (sort : String) : IndexFault → String
  | .outOfRange => sort ++ " index out of range"
  | .notWord => "cannot fit 'int' into an index-sized integer"

/-- Whether a number is a signed word of 64 bits. -/
def isWord (n : Int) : Bool :=
  -0x8000000000000000 ≤ n && n < 0x8000000000000000

/-- The place of a position in a sequence of the given length: counted from
the end if it is below zero, and never before the start. -/
def place (length : Nat) (position : Int) : Nat :=
  (if position < 0 then length + position else position).toNat

/-- Why an index at which nothing stands is refused. -/
def refusal (index : Int) : IndexFault :=
  if isWord index then .outOfRange else .notWord

/-- What stands at an index. -/
def atIndex {α : Type} (xs : List α) (index : Int) : Except IndexFault α :=
  if index < -(xs.length : Int) then .error (refusal index)
  else match xs[place xs.length index]? with
    | some x => .ok x
    | none => .error (refusal index)

/-- A position from zero on is its own place. -/
theorem place_natCast (length n : Nat) : place length n = n := by
  unfold place
  rw [if_neg (by omega)]
  exact Int.toNat_natCast n

/-- From zero on, what stands at an index is what stands at that offset. -/
theorem atIndex_natCast {α : Type} {xs : List α} {n : Nat} {x : α} (h : xs[n]? = some x) :
    atIndex xs n = .ok x := by
  unfold atIndex
  rw [if_neg (by omega), place_natCast, h]

/-- What a cut from one position to another holds, by their places. -/
def cut {α : Type} (xs : List α) (first last : Int) : List α :=
  let start := place xs.length first
  (xs.drop start).take (place xs.length last - start)

end Lox.Text

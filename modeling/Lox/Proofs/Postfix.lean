/-
Folding postfix form back into a tree.

An operator yard does not look at the left side of an assignment; the fold
does, when the whole expression has been read. So what the yard writes is
not the postfix form of a tree but that of a *draft*: a tree in which an
assignment may still have anything on its left. This file says what the
fold makes of a draft: the tree, if all targets are names, and otherwise the
objection to a target (`peel_items`). Nothing else can go wrong on complete
postfix form.

For output that is not complete there is a count (`weight`): operands less
operators with two sides. The fold succeeds only where the count is one.
-/
import Lox.Postfix

namespace Lox

-- ================================================================ drafts

/-- An expression whose assignments may have anything on their left. -/
inductive Draft where
  | operand (node : Node)
  | unary (op : UnaryOp) (operand : Draft)
  | binary (op : BinaryOp) (left right : Draft)
  | assign (target value : Draft)

namespace Draft

/-- The postfix form of a draft, last item first. -/
def items : Draft → List Item
  | .operand node => [.operand node]
  | .unary op d => .operator (some (.unary op)) :: d.items
  | .binary op left right => .operator (some (.binary op)) :: (right.items ++ left.items)
  | .assign target value => .operator (some .assign) :: (value.items ++ target.items)

/-- The name that may be assigned to, if a draft is one. -/
def name? : Draft → Option String
  | .operand (.variable x) => some x
  | _ => none

/-- The tree of a draft, if all its targets are names. -/
def node? : Draft → Option Node
  | .operand node => some node
  | .unary op d => d.node?.map (.unary (.unary op))
  | .binary op left right =>
      match left.node?, right.node? with
      | some l, some r => some (.binary (.binary op) l r)
      | _, _ => none
  | .assign target value =>
      match target.name?, value.node? with
      | some x, some v => some (.assignment x v)
      | _, _ => none

end Draft

-- ============================================================== the fold

namespace Postfix

/-- The fold without the bound on what it leaves. -/
def peel (items : List Item) : Except SyntaxFault (Node × List Item) :=
  match tree items with
  | .ok (node, rest) => .ok (node, rest.1)
  | .error fault => .error fault

theorem peel_operand (node : Node) (rest : List Item) :
    peel (.operand node :: rest) = .ok (node, rest) := by
  unfold peel
  rw [tree]

theorem peel_unary (op : UnaryOp) (items : List Item) :
    peel (.operator (some (.unary op)) :: items)
      = (peel items).map fun r => (.unary (.unary op) r.1, r.2) := by
  unfold peel
  rw [tree]
  cases tree items with
  | error fault => rfl
  | ok r => rfl

theorem peel_binary (op : BinaryOp) (items : List Item) :
    peel (.operator (some (.binary op)) :: items)
      = (peel items).bind fun r =>
          (peel r.2).map fun l => (.binary (.binary op) l.1 r.1, l.2) := by
  unfold peel
  rw [tree]
  cases tree items with
  | error fault => rfl
  | ok r =>
      simp only [Except.bind]
      cases tree r.2.1 with
      | error fault => rfl
      | ok l => rfl

/-- What an assignment makes of the items before its value. -/
def peelTarget (value : Node) : List Item → Except SyntaxFault (Node × List Item)
  | .operand (.variable x) :: before => .ok (.assignment x value, before)
  | _ => .error .badTarget

theorem peel_assign (items : List Item) :
    peel (.operator (some .assign) :: items)
      = (peel items).bind fun v => peelTarget v.1 v.2 := by
  unfold peel
  rw [tree]
  cases tree items with
  | error fault => rfl
  | ok v =>
      obtain ⟨value, before, hlt⟩ := v
      cases before with
      | nil => rfl
      | cons item before =>
          cases item with
          | operator op => rfl
          | operand node => cases node <;> rfl

/-- The whole postfix form makes a tree if nothing is left behind it. -/
theorem wholeTree_eq (items : List Item) :
    wholeTree items
      = (peel items).bind fun r => if r.2 = [] then .ok r.1 else .error .operandsLeft := by
  unfold wholeTree peel
  cases tree items with
  | error fault => rfl
  | ok r =>
      obtain ⟨node, before, hlt⟩ := r
      cases before with
      | nil => rfl
      | cons item before => rfl

end Postfix

-- ==================================================== drafts and the fold

namespace Draft

/-- What comes before the value of an assignment is a target exactly if the
draft there is a name: the items of any other draft end in an operator, or
in an operand of another sort. -/
theorem peelTarget_items (target : Draft) (value : Node) (rest : List Item) :
    Postfix.peelTarget value (target.items ++ rest)
      = match target.name? with
        | some x => .ok (.assignment x value, rest)
        | none => .error .badTarget := by
  cases target with
  | operand node => cases node <;> rfl
  | unary op d => rfl
  | binary op left right => rfl
  | assign target value => rfl

/-- The fold takes exactly a draft's own items and gives its tree, or
objects to a target in it. -/
theorem peel_items (d : Draft) (rest : List Item) :
    Postfix.peel (d.items ++ rest)
      = match d.node? with
        | some node => .ok (node, rest)
        | none => .error .badTarget := by
  induction d generalizing rest with
  | operand node =>
      exact Postfix.peel_operand node rest
  | unary op d ih =>
      rw [items, List.cons_append, Postfix.peel_unary, ih, node?]
      cases d.node? <;> rfl
  | binary op left right ihl ihr =>
      -- the right operand is on top; what it leaves are the left one's items
      rw [items, List.cons_append, List.append_assoc, Postfix.peel_binary, ihr, node?]
      cases right.node? with
      | none => cases left.node? <;> rfl
      | some r =>
          simp only [Except.bind, ihl]
          cases left.node? <;> rfl
  | assign target value _ ihv =>
      rw [items, List.cons_append, List.append_assoc, Postfix.peel_assign, ihv, node?]
      cases value.node? with
      | none => cases target.name? <;> rfl
      | some v =>
          simp only [Except.bind, peelTarget_items]
          cases target.name? <;> rfl

/-- The one tree that a draft's items stand for. -/
theorem wholeTree_items (d : Draft) :
    Postfix.wholeTree d.items
      = match d.node? with
        | some node => .ok node
        | none => .error .badTarget := by
  have h := peel_items d []
  rw [List.append_nil] at h
  rw [Postfix.wholeTree_eq, h]
  cases d.node? <;> rfl

end Draft

-- ============================================================ the count

/-- What an operator takes away: a two-sided one makes two operands one. -/
def Operator.weight : Operator → Int
  | .unary _ => 0
  | .binary _ => -1
  | .assign => -1

/-- The count of an item: one for an operand, its operator's otherwise. -/
def Item.weight : Item → Int
  | .operand _ => 1
  | .operator (some op) => op.weight
  | .operator none => 0

/-- Operands less two-sided operators. -/
def weight : List Item → Int
  | [] => 0
  | item :: items => item.weight + weight items

@[simp]
theorem weight_nil : weight [] = 0 := rfl

@[simp]
theorem weight_cons (item : Item) (items : List Item) :
    weight (item :: items) = item.weight + weight items := rfl

/-- Items weigh together what they weigh in two parts. -/
@[simp]
theorem weight_append (xs ys : List Item) : weight (xs ++ ys) = weight xs + weight ys := by
  induction xs with
  | nil => simp
  | cons item xs ih =>
      rw [List.cons_append, weight_cons, weight_cons, ih]
      omega

/-- Complete postfix form counts one. -/
theorem Draft.weight_items (d : Draft) : weight d.items = 1 := by
  induction d with
  | operand node => rfl
  | unary op d ih => simp [items, Item.weight, Operator.weight, ih]
  | binary op left right ihl ihr => simp [items, Item.weight, Operator.weight, ihl, ihr]
  | assign target value iht ihv => simp [items, Item.weight, Operator.weight, iht, ihv]

namespace Postfix

/-- The fold takes items that count one, whatever the items are. -/
theorem weight_of_tree {items : List Item} {node : Node}
    {rest : { rest : List Item // rest.length < items.length }}
    (h : tree items = .ok (node, rest)) : weight items = 1 + weight rest.1 := by
  fun_induction tree items generalizing node with
  | case2 operand rest => cases h; simp [Item.weight]
  | case5 op rest right beforeRight hright heq left beforeLeft hleft heq' ih ih' =>
      have h₁ := ih heq
      have h₂ := ih' heq'
      cases h
      simp only [weight_cons, Item.weight, Operator.weight] at h₁ h₂ ⊢
      omega
  | case7 op rest operand before hlt heq ih =>
      have h₁ := ih heq
      cases h
      simp only [weight_cons, Item.weight, Operator.weight] at h₁ ⊢
      omega
  | case9 rest value name before hlt heq ih =>
      have h₁ := ih heq
      cases h
      simp only [weight_cons, Item.weight, Operator.weight] at h₁ ⊢
      omega
  | case1 | case3 | case4 | case6 | case8 | case10 | case11 => cases h

/-- Items that stand for a tree count one. -/
theorem weight_of_wholeTree {items : List Item} {node : Node}
    (h : wholeTree items = .ok node) : weight items = 1 := by
  unfold wholeTree at h
  split at h
  · cases h
  · next heq =>
      have hw := weight_of_tree heq
      simpa using hw
  · cases h

end Postfix

end Lox

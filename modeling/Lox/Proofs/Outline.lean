/-
An outline determines its tree.

Outlines are read back (`Outline.node?`). A branch says by its label and the
number of its children what form the tree has, a leaf says by its kind what its
text is, and an operator is found by its symbol within the family that the label
names. What is read is the tree itself, except that all that is not a number
comes back as one not-a-number (`Node.Equal`). So trees with one outline are equal
up to that, and what is equal so has one outline.
-/
import Lox.Node.Outline
import Lox.Proofs.Congruence
import Lox.Proofs.LiteralText
import Lox.Proofs.WellTyped

namespace Lox

-- =============================================================== reading

/-- The prefix operator with a symbol. -/
def UnaryOp.ofSymbol? (s : String) : Option UnaryOp :=
  [.positive, .negative, .not].find? (·.symbol == s)

/-- The operator between operands with a symbol. -/
def BinaryOp.ofSymbol? (s : String) : Option BinaryOp :=
  [.plus, .minus, .times, .div, .equalTo, .notEqualTo, .lessThan, .greaterThan,
    .lessThanOrEqualTo, .greaterThanOrEqualTo, .or, .and].find? (·.symbol == s)

namespace Outline

/-- The value of a literal. -/
def value? : Outline → Option Value
  | .leaf "NUMBER" s => (Double.ofText? s).map .real
  | .leaf "STRING" s => some (.string s)
  | .leaf "BOOLEAN" s => some (.bool (s == "true"))
  | .leaf "NIL" _ => some .nil
  | _ => none

mutual

/-- The tree that an outline is of. -/
def node? : Outline → Option Node
  | .branch "group" [x] => do
      let operand ← node? x
      return .unary (.unary .group) operand
  | .branch "unary" [.leaf _ s, x] => do
      let op ← UnaryOp.ofSymbol? s
      let operand ← node? x
      return .unary (.unary op) operand
  | .branch "binary" [.leaf _ s, x, y] => do
      let op ← BinaryOp.ofSymbol? s
      let left ← node? x
      let right ← node? y
      return .binary (.binary op) left right
  | .branch "assign" [.leaf _ name, x] => do
      let value ← node? x
      return .assignment name value
  | .branch "literal" [x] => (value? x).map .literal
  | .branch "variable" [.leaf _ name] => some (.variable name)
  | .branch "exprstmt" [x] => do
      let expr ← node? x
      return .exprStmt expr
  | .branch "printstmt" [x] => do
      let expr ← node? x
      return .printStmt expr
  | .branch "vardecl" [.leaf _ name] => some (.declare name)
  | .branch "vardecl" [.leaf _ name, x] => do
      let init ← node? x
      return .define name init
  | .branch "assignstmt" [.leaf _ name, x] => do
      let value ← node? x
      return .assignStmt name value
  | .branch "block" xs => do
      let statements ← nodes? xs
      return .block statements
  | _ => none

/-- The trees that some outlines are of, in order. -/
def nodes? : List Outline → Option (List Node)
  | [] => some []
  | x :: rest => do
      let node ← node? x
      let nodes ← nodes? rest
      return node :: nodes

end

end Outline

/-- The symbol of a unary operator other than a group is read back as it. -/
theorem UnaryOp.ofSymbol?_symbol {op : UnaryOp} (h : op ≠ .group) :
    ofSymbol? op.symbol = some op := by
  cases op with
  | group => exact absurd rfl h
  | positive | negative | not => rfl

/-- The symbol of an operator with two operands is read back as it. -/
theorem BinaryOp.ofSymbol?_symbol (op : BinaryOp) : ofSymbol? op.symbol = some op := by
  cases op <;> rfl

/-- A literal is read back, all that is not a number as one. -/
theorem Value.value?_outline {v : Value} (h : v ≠ .absent) :
    ∃ o w, v.outline = .ok o ∧ o.value? = some w ∧ v.equal w = true := by
  cases v with
  | absent => exact absurd rfl h
  | nil => exact ⟨_, .nil, rfl, rfl, rfl⟩
  | bool b => exact ⟨_, .bool b, rfl, by cases b <;> rfl, equal_refl _⟩
  | string s => exact ⟨_, .string s, rfl, rfl, equal_refl _⟩
  | real x =>
      obtain ⟨y, hread, hkey⟩ := Double.exists_ofText?_literalText x
      refine ⟨_, .real y, rfl, ?_, beq_iff_eq.2 hkey⟩
      show (Double.ofText? x.literalText).map Value.real = _
      rw [hread]
      rfl

/-- Equal literals have the same outline. -/
theorem Value.outline_congr {v w : Value} (h : v.equal w = true) : v.outline = w.outline := by
  rcases Value.equal_iff.1 h with rfl | ⟨x, y, rfl, rfl, hx, hy⟩
  · rfl
  · rw [outline, outline, Double.literalText_of_isNaN hx, Double.literalText_of_isNaN hy]

-- ============================================================ equal trees

/-- Values that are equal to the same are equal. -/
theorem Value.equal_of_equal (u v w : Value) (hu : u.equal w = true) (hv : v.equal w = true) :
    u.equal v = true :=
  Value.equal_equivalence.trans hu (Value.equal_equivalence.symm hv)

namespace Node

section

variable {R : Value → Value → Prop}

mutual

/-- Trees that are related to the same tree are related, if literals are. -/
theorem Related.join (hR : ∀ u v w, R u w → R v w → R u v) {a b c : Node} (ha : Related R a c)
    (hb : Related R b c) : Related R a b := by
  match ha, hb with
  | .literal h, .literal h' => exact .literal (hR _ _ _ h h')
  | .variable x, .variable _ => exact .variable x
  | .unary op h, .unary _ h' => exact .unary op (h.join hR h')
  | .binary op hl hr, .binary _ hl' hr' => exact .binary op (hl.join hR hl') (hr.join hR hr')
  | .assignment x h, .assignment _ h' => exact .assignment x (h.join hR h')
  | .exprStmt h, .exprStmt h' => exact .exprStmt (h.join hR h')
  | .printStmt h, .printStmt h' => exact .printStmt (h.join hR h')
  | .declare x, .declare _ => exact .declare x
  | .define x h, .define _ h' => exact .define x (h.join hR h')
  | .assignStmt x h, .assignStmt _ h' => exact .assignStmt x (h.join hR h')
  | .block h, .block h' => exact .block (h.join hR h')
  | .unknown, .unknown => exact .unknown

theorem RelatedAll.join (hR : ∀ u v w, R u w → R v w → R u v) {as bs cs : List Node}
    (ha : RelatedAll R as cs) (hb : RelatedAll R bs cs) : RelatedAll R as bs := by
  match ha, hb with
  | .nil, .nil => exact .nil
  | .cons h hs, .cons h' hs' => exact .cons (h.join hR h') (hs.join hR hs')

end

mutual

/-- Related trees have one outline, if related literals do. -/
theorem Related.outline_eq (hR : ∀ v w, R v w → v.outline = w.outline) {a b : Node}
    (h : Related R a b) : a.outline = b.outline := by
  match h with
  | .literal hv => rw [outline, outline, hR _ _ hv]
  | .variable _ | .declare _ | .unknown => rfl
  | .unary _ he => rw [outline, outline, he.outline_eq hR]
  | .binary _ hl hr => rw [outline, outline, hl.outline_eq hR, hr.outline_eq hR]
  | .assignment _ he => rw [outline, outline, he.outline_eq hR]
  | .exprStmt he => rw [outline, outline, he.outline_eq hR]
  | .printStmt he => rw [outline, outline, he.outline_eq hR]
  | .define _ he => rw [outline, outline, he.outline_eq hR]
  | .assignStmt _ he => rw [outline, outline, he.outline_eq hR]
  | .block hs => rw [outline, outline, hs.outlineAll_eq hR]

theorem RelatedAll.outlineAll_eq (hR : ∀ v w, R v w → v.outline = w.outline)
    {as bs : List Node} (h : RelatedAll R as bs) : outlineAll as = outlineAll bs := by
  match h with
  | .nil => rfl
  | .cons hs hss => rw [outlineAll, outlineAll, hs.outline_eq hR, hss.outlineAll_eq hR]

end

end

/-- Trees that are equal to the same are equal, as literals are. -/
theorem Equal.join {a b c : Node} (ha : a.Equal c) (hb : b.Equal c) : a.Equal b :=
  Related.join Value.equal_of_equal ha hb

theorem EqualAll.join {as bs cs : List Node} (ha : EqualAll as cs) (hb : EqualAll bs cs) :
    EqualAll as bs :=
  RelatedAll.join Value.equal_of_equal ha hb

/-- Equal trees have one outline. -/
theorem Equal.outline_eq {a b : Node} (h : a.Equal b) : a.outline = b.outline :=
  Related.outline_eq (fun _ _ => Value.outline_congr) h

/-- Rows of equal trees have the same outlines. -/
theorem EqualAll.outlineAll_eq {as bs : List Node} (h : EqualAll as bs) :
    outlineAll as = outlineAll bs :=
  RelatedAll.outlineAll_eq (fun _ _ => Value.outline_congr) h

-- ============================================================= reading back

/-- The tree has an outline, which is read as an equal tree. -/
def IsOutlined (n : Node) : Prop :=
  ∃ o n', n.outline = .ok o ∧ o.node? = some n' ∧ n.Equal n'

/-- A form over one tree: it is outlined as a branch over the outline of the tree,
and the branch is read as the form. -/
theorem IsOutlined.over {e n : Node} (h : e.IsOutlined) (wrap : Outline → Outline)
    (make : Node → Node) (houtline : n.outline = do let x ← e.outline; return wrap x)
    (hread : ∀ x : Outline, (wrap x).node? = do let e' ← x.node?; return make e')
    (hequal : ∀ {e' : Node}, e.Equal e' → n.Equal (make e')) : n.IsOutlined := by
  obtain ⟨x, e', hx, he', heq⟩ := h
  refine ⟨wrap x, make e', ?_, ?_, hequal heq⟩
  · rw [houtline, hx]
    rfl
  · rw [hread, he']
    rfl

/-- The outline of an expression is read back as an equal tree. -/
theorem IsExpression.isOutlined {e : Node} (h : e.IsExpression) : e.IsOutlined := by
  induction h with
  | @literal v hv =>
      obtain ⟨x, w, hx, hw, heq⟩ := Value.value?_outline hv
      refine ⟨.branch "literal" [x], .literal w, by rw [outline, hx]; rfl, ?_, .literal heq⟩
      show x.value?.map Node.literal = _
      rw [hw]
      rfl
  | name x => exact ⟨_, .variable x, rfl, rfl, .variable x⟩
  | @unary op e _ ih =>
      -- a group has a label of its own
      by_cases hop : op = .group
      · subst hop
        exact ih.over (fun x => .branch "group" [x]) _ (by rw [outline]; rfl) (fun _ => rfl)
          (.unary _)
      · refine ih.over (fun x => .branch "unary" [.leaf "OP" op.symbol, x])
          (.unary (.unary op)) ?_ ?_ (.unary _)
        · have hne : Operator.unary op ≠ .unary .group := fun heq => hop (Operator.unary.inj heq)
          rw [outline]
          simp only [if_neg hne]
          rfl
        · intro x
          show (do
            let op ← UnaryOp.ofSymbol? op.symbol
            let operand ← x.node?
            return Node.unary (.unary op) operand) = _
          rw [UnaryOp.ofSymbol?_symbol hop]
          rfl
  | @binary op l r _ _ ihl ihr =>
      obtain ⟨x, l', hx, hl', hleft⟩ := ihl
      obtain ⟨y, r', hy, hr', hright⟩ := ihr
      refine ⟨.branch "binary" [.leaf "OP" op.symbol, x, y], .binary (.binary op) l' r',
        by rw [outline, hx, hy]; rfl, ?_, .binary _ hleft hright⟩
      show (do
        let op ← BinaryOp.ofSymbol? op.symbol
        let left ← x.node?
        let right ← y.node?
        return Node.binary (.binary op) left right) = _
      rw [op.ofSymbol?_symbol, hl', hr']
      rfl
  | assignment x _ ih =>
      exact ih.over (fun y => .branch "assign" [.leaf "IDENTIFIER" x, y]) (.assignment x)
        (by rw [outline]; rfl) (fun _ => rfl) (.assignment x)

/-- If the outlines of trees are read back one by one, they are read back as a
row. -/
theorem exists_outlineAll_read {ss : List Node} (h : ∀ s ∈ ss, s.IsOutlined) :
    ∃ os ss', outlineAll ss = .ok os ∧ Outline.nodes? os = some ss' ∧ EqualAll ss ss' := by
  induction ss with
  | nil => exact ⟨[], [], rfl, rfl, .nil⟩
  | cons s ss ih =>
      rw [List.forall_mem_cons] at h
      obtain ⟨⟨o, s', ho, hs', heq⟩, hss⟩ := h
      obtain ⟨os, ss', hos, hss', heqs⟩ := ih hss
      refine ⟨o :: os, s' :: ss', by rw [outlineAll, ho, hos]; rfl, ?_, .cons heq heqs⟩
      show (do
        let node ← o.node?
        let nodes ← Outline.nodes? os
        return node :: nodes) = _
      rw [hs', hss']
      rfl

/-- The outline of a statement is read back as an equal tree. -/
theorem IsStatement.isOutlined {s : Node} (h : s.IsStatement) : s.IsOutlined := by
  induction h with
  | exprStmt he =>
      exact he.isOutlined.over (fun y => .branch "exprstmt" [y]) .exprStmt
        (by rw [outline]) (fun _ => rfl) .exprStmt
  | printStmt he =>
      exact he.isOutlined.over (fun y => .branch "printstmt" [y]) .printStmt
        (by rw [outline]) (fun _ => rfl) .printStmt
  | declare x => exact ⟨_, .declare x, rfl, rfl, .declare x⟩
  | define x he =>
      exact he.isOutlined.over (fun y => .branch "vardecl" [.leaf "IDENTIFIER" x, y])
        (.define x) (by rw [outline]; rfl) (fun _ => rfl) (.define x)
  | assignStmt x he =>
      exact he.isOutlined.over (fun y => .branch "assignstmt" [.leaf "IDENTIFIER" x, y])
        (.assignStmt x) (by rw [outline]; rfl) (fun _ => rfl) (.assignStmt x)
  | block _ ih =>
      obtain ⟨os, ss', hos, hss', heq⟩ := exists_outlineAll_read ih
      refine ⟨.branch "block" os, .block ss', by rw [outline, hos]; rfl, ?_, .block heq⟩
      show (do
        let statements ← Outline.nodes? os
        return Node.block statements) = _
      rw [hss']
      rfl

/-- A tree of the right form: an expression or a statement. -/
def IsWellFormed (n : Node) : Prop :=
  n.IsExpression ∨ n.IsStatement

/-- So is that of every tree the parser can give. -/
theorem IsWellFormed.isOutlined {n : Node} (h : n.IsWellFormed) : n.IsOutlined :=
  h.elim IsExpression.isOutlined IsStatement.isOutlined

end Node

-- ============================================================= the result

/-- An outline determines its tree. Expressions and statements have outlines, and
two of them have the same outline just if they are the same tree, up to literals
that are not numbers; and so for programs. -/
theorem outline_determines_tree :
    (∀ a b : Node, a.IsWellFormed → b.IsWellFormed →
      (∃ o, a.outline = .ok o) ∧ (a.outline = b.outline ↔ a.Equal b))
      ∧ ∀ ss ts : List Node, (∀ s ∈ ss, s.IsStatement) → (∀ t ∈ ts, t.IsStatement) →
        (∃ o, programOutline ss = .ok o)
          ∧ (programOutline ss = programOutline ts ↔ Node.EqualAll ss ts) := by
  refine ⟨fun a b ha hb => ?_, fun ss ts hss hts => ?_⟩
  · obtain ⟨o, a', ho, hread, heq⟩ := ha.isOutlined
    obtain ⟨o', b', ho', hread', heq'⟩ := hb.isOutlined
    refine ⟨⟨o, ho⟩, fun h => ?_, Node.Equal.outline_eq⟩
    rw [ho, ho'] at h
    cases h
    rw [hread] at hread'
    cases hread'
    exact heq.join heq'
  · obtain ⟨os, ss', hos, hread, heq⟩ :=
      Node.exists_outlineAll_read fun s hs => (hss s hs).isOutlined
    obtain ⟨os', ts', hos', hread', heq'⟩ :=
      Node.exists_outlineAll_read fun t ht => (hts t ht).isOutlined
    refine ⟨⟨.branch "program" os, by rw [programOutline, hos]; rfl⟩, fun h => ?_, fun h => ?_⟩
    · rw [programOutline, programOutline, hos, hos'] at h
      cases h
      rw [hread] at hread'
      cases hread'
      exact heq.join heq'
    · rw [programOutline, programOutline, h.outlineAll_eq]

/-- A declaration of a negated not-a-number: another bit pattern has the same
outline, a group in the place of the minus has not. -/
theorem outline_determines_tree_nan :
    let x : Double := ⟨0x7FF8000000000000⟩
    let y : Double := ⟨0xFFF0000000000001⟩
    let declaration (op : UnaryOp) (v : Double) : Node :=
      .define "a" (.unary (.unary op) (.literal (.real v)))
    let n := declaration .negative x
    let n' := declaration .negative y
    let grouped := declaration .group x
    n.IsWellFormed ∧ n'.IsWellFormed ∧ grouped.IsWellFormed ∧ x ≠ y
      ∧ n.outline = n'.outline ∧ n.outline ≠ grouped.outline
      ∧ programOutline [.declare "a", n] = programOutline [.declare "a", n']
      ∧ programOutline [n] ≠ programOutline [.block [n]] := by
  intro x y declaration n n' grouped
  have hstatement (op : UnaryOp) (v : Double) : (declaration op v).IsStatement :=
    .define _ (.unary op (.literal (by simp)))
  have hequal : n.Equal n' := .define _ (.unary _ (.literal (by decide)))
  obtain ⟨htrees, hprograms⟩ := outline_determines_tree
  obtain ⟨-, hsame⟩ := htrees n n' (.inr (hstatement _ _)) (.inr (hstatement _ _))
  obtain ⟨-, hother⟩ := htrees n grouped (.inr (hstatement _ _)) (.inr (hstatement _ _))
  obtain ⟨-, hprogram⟩ := hprograms [.declare "a", n] [.declare "a", n']
    (by simp [n, hstatement, Node.IsStatement.declare])
    (by simp [n', hstatement, Node.IsStatement.declare])
  obtain ⟨-, hblock⟩ := hprograms [n] [.block [n]] (by simp [n, hstatement])
    (by simp [n, hstatement, Node.IsStatement.block])
  have hgroup : ¬ n.Equal grouped := by
    intro h
    have hoperand : Node.Equal (.define "a" (.unary (.unary .negative) _))
        (.define "a" (.unary (.unary .group) _)) := h
    cases hoperand with
    | define _ he => cases he
  have hnested : ¬ n.Equal (.block [n]) := by
    intro h
    have hform : Node.Equal (.define "a" _) (.block [n]) := h
    cases hform
  refine ⟨.inr (hstatement _ _), .inr (hstatement _ _), .inr (hstatement _ _), by decide,
    hsame.2 hequal, fun h => hgroup (hother.1 h),
    hprogram.2 (.cons (.declare _) (.cons hequal .nil)), fun h => ?_⟩
  cases hblock.1 h with
  | cons hs _ => exact hnested hs

end Lox

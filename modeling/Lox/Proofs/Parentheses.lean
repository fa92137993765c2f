/-
Parentheses are only syntax.

# Groups

Parsing keeps parentheses as groups in the tree. `ungrouped` takes them out,
at any depth and also inside statements. A group has the value of what is in
it, so evaluation does not see the difference (`Node.eval_ungrouped`).

# Trees in parentheses

`Wraps ts e` says that the tokens are the tree with parentheses around every
part that is not a leaf. Inside parentheses stands one operator with operands
that are single tokens or in parentheses themselves, which are of the
tightest level of the grammar. So no rule of precedence is asked, and the
tokens derive the tree with a group around each part (`Wraps.derives`). A
tree without groups can be written in this way, as tokens and as a text
(`Node.Groupless.exists_wraps`, `exists_source`).
-/
import Lox.Proofs.Layout
import Lox.Proofs.LongestMatch

namespace Lox

open Grammar (Level Derives Expression levelOf)
open Token (kind_of_content lexeme_of_content)

-- ================================================================= groups

mutual

/-- A tree with all groups replaced by what is in them. -/
def Node.ungrouped : Node → Node
  | .unary op operand =>
      if op = .unary .group then operand.ungrouped else .unary op operand.ungrouped
  | .binary op left right => .binary op left.ungrouped right.ungrouped
  | .assignment x value => .assignment x value.ungrouped
  | .literal v => .literal v
  | .variable x => .variable x
  | .exprStmt expr => .exprStmt expr.ungrouped
  | .printStmt expr => .printStmt expr.ungrouped
  | .declare x => .declare x
  | .define x init => .define x init.ungrouped
  | .assignStmt x value => .assignStmt x value.ungrouped
  | .block statements => .block (Node.ungroupedAll statements)
  | .unknown => .unknown

/-- Trees with all groups replaced by what is in them. -/
def Node.ungroupedAll : List Node → List Node
  | [] => []
  | node :: rest => node.ungrouped :: Node.ungroupedAll rest

end

/-- To apply a group changes nothing. -/
theorem Outcome.andThen_group (r : Outcome Value) :
    r.andThen (fun v m => applied (Operator.applyUnary (.unary .group) v) m) = r := by
  rcases r with ⟨fault | v, m⟩ <;> rfl

mutual

/-- Evaluation does not see groups. -/
theorem Node.eval_ungrouped : ∀ (n : Node) (m : Machine), n.ungrouped.eval m = n.eval m
  | .unary op operand, m => by
      unfold Node.ungrouped
      split
      · next hgroup =>
          rw [hgroup, Node.eval_ungrouped operand m]
          simp only [Node.eval, Outcome.andThen_group]
      · simp only [Node.eval, Node.eval_ungrouped operand]
  | .binary op left right, m => by
      simp only [Node.ungrouped, Node.eval, Node.eval_ungrouped left, Node.eval_ungrouped right]
  | .assignment x value, m => by
      simp only [Node.ungrouped, Node.eval, Node.eval_ungrouped value]
  | .literal v, m => rfl
  | .variable x, m => rfl
  | .exprStmt expr, m => by
      simp only [Node.ungrouped, Node.eval, Node.eval_ungrouped expr]
  | .printStmt expr, m => by
      simp only [Node.ungrouped, Node.eval, Node.eval_ungrouped expr]
  | .declare x, m => rfl
  | .define x init, m => by
      simp only [Node.ungrouped, Node.eval, Node.eval_ungrouped init]
  | .assignStmt x value, m => by
      simp only [Node.ungrouped, Node.eval, Node.eval_ungrouped value]
  | .block statements, m => by
      simp only [Node.ungrouped, Node.eval, Node.evalAll_ungrouped statements]
  | .unknown, m => rfl

theorem Node.evalAll_ungrouped : ∀ (ns : List Node) (last : Value) (m : Machine),
    Node.evalAll (Node.ungroupedAll ns) last m = Node.evalAll ns last m
  | [], last, m => rfl
  | n :: ns, last, m => by
      simp only [Node.ungroupedAll, Node.evalAll, Node.eval_ungrouped n,
        Node.evalAll_ungrouped ns]

end

-- ================================================================= tokens

/-- `Encloses us ts`: the tokens `us` are `ts` in parentheses. -/
def Encloses (us ts : List Token) : Prop :=
  ∃ left right : Token,
    left.kind = .leftParen ∧ right.kind = .rightParen ∧ us = left :: (ts ++ [right])

/-- `Wraps ts e`: the tokens `ts` are the tree `e` with each part of it that is
not a leaf in parentheses. -/
inductive Wraps : List Token → Node → Prop where
  | literal {t : Token} {v : Value} : Grammar.literal? t = some v → Wraps [t] (.literal v)
  | name {t : Token} : t.kind = .identifier → Wraps [t] (.variable t.lexeme)
  | unary {op : UnaryOp} {t : Token} {ts us : List Token} {operand : Node} :
      Grammar.prefixed? t.kind = some op → Wraps ts operand → Encloses us (t :: ts) →
      Wraps us (.unary (.unary op) operand)
  | binary {l : Level} {op : BinaryOp} {t : Token} {ts ts' us : List Token} {left right : Node} :
      Grammar.binary? t.kind = some (l, op) → Wraps ts left → Wraps ts' right →
      Encloses us (ts ++ t :: ts') → Wraps us (.binary (.binary op) left right)
  | assignment {x eq : Token} {ts us : List Token} {value : Node} :
      x.kind = .identifier → eq.kind = .equal → Wraps ts value →
      Encloses us (x :: eq :: ts) → Wraps us (.assignment x.lexeme value)

-- ================================================================ parsing

/-- What is enclosed in parentheses is of the tightest level. -/
theorem Encloses.derives {us ts : List Token} {l : Level} {e : Node} (h : Encloses us ts)
    (he : Derives l ts e) : Derives .primary us (.unary (.unary .group) e) := by
  obtain ⟨left, right, hleft, hright, rfl⟩ := h
  exact .group hleft hright (he.loosen (Grammar.bound_le_assign l))

/-- A group without groups is what was in it. -/
theorem Node.ungrouped_group (e : Node) :
    (Node.unary (.unary .group) e).ungrouped = e.ungrouped := by
  rw [Node.ungrouped, if_pos rfl]

/-- No sign stands for a group. -/
theorem Grammar.ne_group_of_prefixed? {kind : Kind} {op : UnaryOp}
    (h : Grammar.prefixed? kind = some op) : Operator.unary op ≠ .unary .group := by
  cases kind <;> cases h <;> decide

/-- A tree in parentheses is derived at the tightest level, with groups for the
parentheses. -/
theorem Wraps.derives {ts : List Token} {e : Node} (h : Wraps ts e) :
    ∃ e', Derives .primary ts e' ∧ e'.ungrouped = e := by
  induction h with
  | literal hv => exact ⟨_, .literal hv, rfl⟩
  | name hx => exact ⟨_, .name hx, rfl⟩
  | unary hop _ hus ih =>
      obtain ⟨operand', hoperand, rfl⟩ := ih
      have hunary := Derives.unary hop (hoperand.loosen (Grammar.bound_primary_le _))
      refine ⟨_, hus.derives hunary, ?_⟩
      rw [Node.ungrouped_group, Node.ungrouped, if_neg (Grammar.ne_group_of_prefixed? hop)]
  | binary hop _ _ hus ihl ihr =>
      obtain ⟨left', hleft, rfl⟩ := ihl
      obtain ⟨right', hright, rfl⟩ := ihr
      have hbinary := Derives.binary hop (hleft.loosen (Grammar.bound_primary_le _))
        (hright.loosen (Grammar.bound_primary_le _))
      refine ⟨_, hus.derives hbinary, ?_⟩
      rw [Node.ungrouped_group, Node.ungrouped]
  | assignment hx heq _ hus ih =>
      obtain ⟨value', hvalue, rfl⟩ := ih
      have hassignment := Derives.assignment hx heq (hvalue.loosen (Grammar.bound_primary_le _))
      refine ⟨_, hus.derives hassignment, ?_⟩
      rw [Node.ungrouped_group, Node.ungrouped]

/-- A tree in parentheses is parsed to that tree with groups, up to the
terminator behind it. -/
theorem Wraps.expression {ts rest : List Token} {e : Node} {z : Token} (h : Wraps ts e) (y : Yard)
    {c : Cursor} (hz : z.kind.endsExpression = true) (hc : tokensOf c.pending = ts ++ z :: rest) :
    ∃ e', (y.expression c).1 = .ok e' ∧ e'.ungrouped = e
      ∧ tokensOf (y.expression c).2.pending = z :: rest := by
  obtain ⟨e', hderives, he'⟩ := h.derives
  obtain ⟨before, after, hpending, rfl, rfl⟩ := exists_events_of_tokensOf hc
  have hexpression : Expression (tokensOf before) e' :=
    hderives.loosen (Grammar.bound_le_assign _)
  rw [expression_eq_ok_iff.2 ⟨before, z, after, hpending, hz, hexpression, rfl⟩]
  exact ⟨e', rfl, he', rfl⟩

-- ================================================================ writing

/-- A word that is not reserved. -/
def IsName (x : String) : Prop :=
  IsWord x.toList ∧ ∀ kind : Kind, kind.word? ≠ some x

/-- `e.Groupless p`: an expression without groups, all of whose names are names
that can be written and all of whose literals are those of tokens with the
property `p`. -/
inductive Node.Groupless (p : Token → Prop) : Node → Prop where
  | literal {t : Token} {v : Value} :
      p t → Grammar.literal? t = some v → Groupless p (.literal v)
  | name {x : String} : IsName x → Groupless p (.variable x)
  | unary {op : UnaryOp} {operand : Node} :
      op ≠ .group → Groupless p operand → Groupless p (.unary (.unary op) operand)
  | binary {op : BinaryOp} {left right : Node} :
      Groupless p left → Groupless p right → Groupless p (.binary (.binary op) left right)
  | assignment {x : String} {value : Node} :
      IsName x → Groupless p value → Groupless p (.assignment x value)

/-- Operators and parentheses, each of them once. -/
def signs : String :=
  "( ) = + - ! * / == != < <= > >= and or"

/-- The kinds of the signs, without the end token. -/
def signKinds : List Kind :=
  [.leftParen, .rightParen, .equal, .plus, .minus, .bang, .star, .slash, .equalEqual, .bangEqual,
    .less, .lessEqual, .greater, .greaterEqual, .andKw, .orKw]

/-- A property of the kind of some mark is one of a token that can be
written. -/
theorem exists_legible_sign {P : Kind → Prop} (h : ∃ kind ∈ signKinds, P kind) :
    ∃ t : Token, t.Legible ∧ P t.kind := by
  obtain ⟨kind, hkind, hP⟩ := h
  have hkinds : (tokenize signs).map Token.kind = signKinds ++ [.eof] := by decide +kernel
  have hmem : kind ∈ (tokenize signs).map Token.kind := by
    rw [hkinds]
    exact List.mem_append_left _ hkind
  have hne : kind ≠ .eof := by
    rintro rfl
    exact absurd hkind (by decide)
  obtain ⟨t, ht, rfl⟩ := List.mem_map.1 hmem
  exact ⟨t, legible_of_mem_tokenize ht hne, hP⟩

theorem exists_legible_kind {kind : Kind} (h : kind ∈ signKinds) :
    ∃ t : Token, t.Legible ∧ t.kind = kind :=
  exists_legible_sign (P := (· = kind)) ⟨kind, h, rfl⟩

theorem exists_legible_prefixed {op : UnaryOp} (h : op ≠ .group) :
    ∃ t : Token, t.Legible ∧ Grammar.prefixed? t.kind = some op := by
  have hsign : ∃ kind ∈ signKinds, Grammar.prefixed? kind = some op := by
    cases op <;> first | decide | exact absurd rfl h
  exact exists_legible_sign hsign

/-- Every operator with two operands can be written. -/
theorem exists_legible_binary (op : BinaryOp) :
    ∃ t : Token, t.Legible ∧ Grammar.binary? t.kind = some (levelOf op, op) := by
  have hsign : ∃ kind ∈ signKinds, Grammar.binary? kind = some (levelOf op, op) := by
    cases op <;> decide
  exact exists_legible_sign hsign

/-- A lexeme alone is read as itself. -/
theorem Spells.exists_legible {cs : List Char} {kind : Kind} {literal : Option String}
    (h : Spells cs kind literal) (hlead : Scanner.Leadless cs) :
    ∃ t : Token, t.Legible ∧ t.kind = kind ∧ t.lexeme = String.ofList cs := by
  have hlongest : LongestLexeme cs cs kind literal :=
    ⟨List.prefix_rfl, h, fun hfront _ => hfront.length_le⟩
  obtain ⟨_, _, _, hscans, -⟩ := h.scans (s := { rest := cs }) List.prefix_rfl
  have hread := Scanner.scanToken_of_longest (s := { rest := cs }) hlongest
  exact ⟨_, ⟨_, _, hlead, (Scanner.scanToken_eq_iff hscans.rest_ne_nil).1 hread⟩, rfl, rfl⟩

theorem IsName.exists_legible {x : String} (h : IsName x) :
    ∃ t : Token, t.Legible ∧ t.kind = .identifier ∧ t.lexeme = x := by
  obtain ⟨hword, hname⟩ := h
  have hlead : Scanner.Leadless x.toList := by
    obtain ⟨c, rest, hx, hstart, -⟩ := hword
    rw [hx, Scanner.leadless_cons_iff]
    refine ⟨?_, ?_⟩
    · rw [← Bool.not_eq_true]
      intro hblank
      have hchar := Scanner.isWordChar_of_isBlank hblank
      rw [Scanner.isWordChar, hstart] at hchar
      cases hchar
    · rintro ⟨rfl, -⟩
      cases hstart
  have hspells : Spells x.toList .identifier none := .name hword (by rwa [String.ofList_toList])
  obtain ⟨t, ht, hkind, hlexeme⟩ := hspells.exists_legible hlead
  exact ⟨t, ht, hkind, hlexeme.trans (String.ofList_toList ..)⟩

/-- Tokens that can be written can be enclosed in parentheses that can. -/
theorem exists_encloses {p : Token → Prop} (hp : ∀ t : Token, t.Legible → p t) {ts : List Token}
    (hts : ∀ t ∈ ts, p t) : ∃ us, Encloses us ts ∧ ∀ t ∈ us, p t := by
  obtain ⟨left, hleft, hl⟩ := @exists_legible_kind .leftParen (by decide)
  obtain ⟨right, hright, hr⟩ := @exists_legible_kind .rightParen (by decide)
  refine ⟨left :: (ts ++ [right]), ⟨left, right, hl, hr, rfl⟩, ?_⟩
  rw [List.forall_mem_cons, List.forall_mem_append, List.forall_mem_singleton]
  exact ⟨hp left hleft, hts, hp right hright⟩

/-- A tree without groups can be written with parentheses around all its parts,
by tokens of a property that legible tokens have. -/
theorem Node.Groupless.exists_wraps {p : Token → Prop} (hp : ∀ t : Token, t.Legible → p t)
    {e : Node} (h : e.Groupless p) : ∃ ts, Wraps ts e ∧ ∀ t ∈ ts, p t := by
  induction h with
  | @literal t v ht hv => exact ⟨[t], .literal hv, List.forall_mem_singleton.2 ht⟩
  | name hx =>
      obtain ⟨t, ht, hkind, rfl⟩ := hx.exists_legible
      exact ⟨[t], .name hkind, List.forall_mem_singleton.2 (hp t ht)⟩
  | unary hop _ ih =>
      obtain ⟨ts, hwraps, hts⟩ := ih
      obtain ⟨t, ht, hkind⟩ := exists_legible_prefixed hop
      obtain ⟨us, hencloses, hus⟩ := exists_encloses hp (List.forall_mem_cons.2 ⟨hp t ht, hts⟩)
      exact ⟨us, .unary hkind hwraps hencloses, hus⟩
  | @binary op _ _ _ _ ihl ihr =>
      obtain ⟨ts, hleft, hts⟩ := ihl
      obtain ⟨ts', hright, hts'⟩ := ihr
      obtain ⟨t, ht, hkind⟩ := exists_legible_binary op
      have hall : ∀ u ∈ ts ++ t :: ts', p u := by
        rw [List.forall_mem_append, List.forall_mem_cons]
        exact ⟨hts, hp t ht, hts'⟩
      obtain ⟨us, hencloses, hus⟩ := exists_encloses hp hall
      exact ⟨us, .binary hkind hleft hright hencloses, hus⟩
  | assignment hx _ ih =>
      obtain ⟨ts, hwraps, hts⟩ := ih
      obtain ⟨t, ht, hkind, rfl⟩ := hx.exists_legible
      obtain ⟨eq, heq, hequal⟩ := @exists_legible_kind .equal (by decide)
      have hall : ∀ u ∈ t :: eq :: ts, p u := by
        rw [List.forall_mem_cons, List.forall_mem_cons]
        exact ⟨hp t ht, hp eq heq, hts⟩
      obtain ⟨us, hencloses, hus⟩ := exists_encloses hp hall
      exact ⟨us, .assignment hkind hequal hwraps hencloses, hus⟩

-- ================================================================== texts

/-- The literal of a token is settled by its content. -/
theorem Grammar.literal?_of_content {t u : Token} (h : t.content = u.content) :
    Grammar.literal? t = Grammar.literal? u := by
  have hliteral : t.literal = u.literal := congrArg (·.2.2) h
  unfold Grammar.literal?
  rw [kind_of_content h, lexeme_of_content h, hliteral]

/-- Enclosing asks for the contents of tokens only. -/
theorem Encloses.of_contents {us ts us' : List Token} (h : Encloses us ts)
    (hus : us'.map Token.content = us.map Token.content) :
    ∃ ts', Encloses us' ts' ∧ ts'.map Token.content = ts.map Token.content := by
  obtain ⟨left, right, hleft, hright, rfl⟩ := h
  rw [List.map_cons, List.map_append] at hus
  obtain ⟨left', rest, rfl, hl, hrest⟩ := List.map_eq_cons_iff.1 hus
  obtain ⟨ts', last, rfl, hts, hlast⟩ := List.map_eq_append_iff.1 hrest
  obtain ⟨right', rfl, hr⟩ := List.map_eq_singleton_iff.1 hlast
  exact ⟨ts', ⟨left', right', (kind_of_content hl).trans hleft, (kind_of_content hr).trans hright,
    rfl⟩, hts⟩

/-- Where the tokens stand does not matter. -/
theorem Wraps.of_contents {ts ts' : List Token} {e : Node} (h : Wraps ts e)
    (hts : ts'.map Token.content = ts.map Token.content) : Wraps ts' e := by
  induction h generalizing ts' with
  | literal hv =>
      obtain ⟨t', rfl, ht⟩ := List.map_eq_singleton_iff.1 hts
      exact .literal ((Grammar.literal?_of_content ht).trans hv)
  | name hx =>
      obtain ⟨t', rfl, ht⟩ := List.map_eq_singleton_iff.1 hts
      rw [← lexeme_of_content ht]
      exact .name ((kind_of_content ht).trans hx)
  | unary hop _ hus ih =>
      obtain ⟨inside, hencloses, hinside⟩ := hus.of_contents hts
      obtain ⟨t', us, rfl, ht, hus'⟩ := List.map_eq_cons_iff.1 hinside
      exact .unary (kind_of_content ht ▸ hop) (ih hus') hencloses
  | binary hop _ _ hus ihl ihr =>
      obtain ⟨inside, hencloses, hinside⟩ := hus.of_contents hts
      rw [List.map_append] at hinside
      obtain ⟨us, behind, rfl, hleft, hbehind⟩ := List.map_eq_append_iff.1 hinside
      obtain ⟨t', us', rfl, ht, hright⟩ := List.map_eq_cons_iff.1 hbehind
      exact .binary (kind_of_content ht ▸ hop) (ihl hleft) (ihr hright) hencloses
  | assignment hx heq _ hus ih =>
      obtain ⟨inside, hencloses, hinside⟩ := hus.of_contents hts
      obtain ⟨x', behind, rfl, hx', hbehind⟩ := List.map_eq_cons_iff.1 hinside
      obtain ⟨eq', us, rfl, heq', hus'⟩ := List.map_eq_cons_iff.1 hbehind
      rw [← lexeme_of_content hx']
      exact .assignment ((kind_of_content hx').trans hx) ((kind_of_content heq').trans heq)
        (ih hus') hencloses

/-- A tree without groups has a text, if its literals have. -/
theorem Node.Groupless.exists_source {e : Node} (h : e.Groupless Token.Legible) :
    ∃ source ts last, errorsOf (scan source) = [] ∧ tokenize source = ts ++ [last]
      ∧ last.kind = .eof ∧ Wraps ts e := by
  obtain ⟨ts, hwraps, hlegible⟩ := h.exists_wraps fun _ ht => ht
  obtain ⟨herrors, hcontents⟩ := scan_joined hlegible
  obtain ⟨us, tail, htokens, hus, htail⟩ := List.map_eq_append_iff.1 hcontents
  obtain ⟨last, rfl, hlast⟩ := List.map_eq_singleton_iff.1 htail
  exact ⟨_, us, last, herrors, htokens, congrArg Prod.fst hlast, hwraps.of_contents hus⟩

-- ============================================================= the result

/-- Parentheses are only syntax. An expression without groups, of the operators
of the grammar, names and literals that tokens denote, can be written as
tokens with all its parts in parentheses, and also as a text if the literals
can. Such tokens before a terminator are parsed as an expression, and that is
the tree once its groups are taken out. To take out the groups of any tree, of
an expression or a statement, changes nothing about its evaluation: not the
value or the fault, not the scopes and not the effects. -/
theorem parentheses_only_syntax :
    (∀ e : Node, e.Groupless (fun _ => True) → ∃ ts, Wraps ts e)
      ∧ (∀ e : Node, e.Groupless Token.Legible →
          ∃ source ts last, errorsOf (scan source) = [] ∧ tokenize source = ts ++ [last]
            ∧ last.kind = .eof ∧ Wraps ts e)
      ∧ (∀ (e : Node) (ts rest : List Token) (z : Token) (y : Yard) (c : Cursor), Wraps ts e →
          z.kind = .semicolon ∨ z.kind = .eof → tokensOf c.pending = ts ++ z :: rest →
          ∃ e', (y.expression c).1 = .ok e' ∧ e'.ungrouped = e
            ∧ tokensOf (y.expression c).2.pending = z :: rest)
      ∧ (∀ (n : Node) (m : Machine), n.ungrouped.eval m = n.eval m) := by
  refine ⟨fun e he => ?_, fun e => Node.Groupless.exists_source,
    fun e ts rest z y c hwraps hz hc => ?_, Node.eval_ungrouped⟩
  · obtain ⟨ts, hwraps, -⟩ := he.exists_wraps fun _ _ => trivial
    exact ⟨ts, hwraps⟩
  · exact hwraps.expression y (endsExpression_iff.2 hz) hc

/-- The tree of `-a + (b = "x")`, which without the inner parentheses would not
be parsed. -/
theorem parentheses_only_syntax_inner_assignment :
    let source := "((-a)+(b=\"x\"))"
    let e : Node := .binary (.binary .plus) (.unary (.unary .negative) (.variable "a"))
      (.assignment "b" (.literal (.string "x")))
    let negated : List Token := [⟨.leftParen, "(", none, 1, 2, 1⟩, ⟨.minus, "-", none, 2, 3, 1⟩,
      ⟨.identifier, "a", none, 3, 4, 1⟩, ⟨.rightParen, ")", none, 4, 5, 1⟩]
    let assigned : List Token := [⟨.leftParen, "(", none, 6, 7, 1⟩,
      ⟨.identifier, "b", none, 7, 8, 1⟩, ⟨.equal, "=", none, 8, 9, 1⟩,
      ⟨.string, "\"x\"", some "x", 9, 12, 1⟩, ⟨.rightParen, ")", none, 12, 13, 1⟩]
    let ts : List Token := ⟨.leftParen, "(", none, 0, 1, 1⟩ :: ((negated
      ++ ⟨.plus, "+", none, 5, 6, 1⟩ :: assigned) ++ [⟨.rightParen, ")", none, 13, 14, 1⟩])
    let last : Token := ⟨.eof, "", none, 14, 15, 1⟩
    e.Groupless (fun _ => True) ∧ e.Groupless Token.Legible ∧ (∃ us, Wraps us e)
      ∧ Wraps ts e ∧ tokenize source = ts ++ [last]
      ∧ ∃ e', (Cursor.ofSource source).expression.1 = .ok e' ∧ e'.ungrouped = e := by
  intro source e negated assigned ts last
  have htokens : tokenize source = ts ++ [last] := by decide +kernel
  have hnameA : IsName "a" :=
    ⟨⟨'a', [], rfl, rfl, rfl⟩, fun kind => by cases kind <;> decide⟩
  have hnameB : IsName "b" :=
    ⟨⟨'b', [], rfl, rfl, rfl⟩, fun kind => by cases kind <;> decide⟩
  have hgroupless {p : Token → Prop} (hp : p ⟨.string, "\"x\"", some "x", 9, 12, 1⟩) :
      e.Groupless p :=
    .binary (.unary (by decide) (.name hnameA)) (.assignment hnameB (.literal hp rfl))
  have hlegible : Token.Legible ⟨.string, "\"x\"", some "x", 9, 12, 1⟩ :=
    @legible_of_mem_tokenize source _ (by decide +kernel) (by decide)
  have hnegated : Wraps negated (.unary (.unary .negative) (.variable "a")) :=
    .unary rfl (@Wraps.name ⟨.identifier, "a", none, 3, 4, 1⟩ rfl) ⟨_, _, rfl, rfl, rfl⟩
  have hassigned : Wraps assigned (.assignment "b" (.literal (.string "x"))) :=
    @Wraps.assignment ⟨.identifier, "b", none, 7, 8, 1⟩ _ _ _ _ rfl rfl
      (.literal rfl) ⟨_, _, rfl, rfl, rfl⟩
  have hwraps : Wraps ts e := .binary rfl hnegated hassigned ⟨_, _, rfl, rfl, rfl⟩
  obtain ⟨hwritten, -, hparsed, -⟩ := parentheses_only_syntax
  obtain ⟨e', hok, he', -⟩ :=
    hparsed e ts [] last {} (Cursor.ofSource source) hwraps (.inr rfl) htokens
  exact ⟨hgroupless trivial, hgroupless hlegible, hwritten e (hgroupless trivial), hwraps, htokens,
    e', hok, he'⟩

end Lox

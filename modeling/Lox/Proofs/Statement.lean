/-
Parsing statements is deriving them.

# One turn

The statement parser is a loop over turns: a turn opens a block, closes one,
or reads a whole statement that is no block. `Moves` says what each of them
takes from the cursor, and every turn is one of these or a failure
(`turn_moves`).

# Soundness: what open blocks still ask for

A parse that starts inside open blocks reads the rest of all of them.
`Closes blocks ts n` says that the tokens `ts` finish the open blocks, with
the tree `n` as the outermost result; with no block open this is a
statement. Opening a block turns what it asks for into a member of the block
around it (`Closes.opened`), so every successful run has a derivation behind
it (`closes_of_statementIn`).

# Completeness

In the other direction a derivation drives the loop: reading the tokens of
a statement has the effect of placing its tree in the innermost open block
(`statementIn_of_statement`), whatever blocks are open. This is a mutual
induction over the derivations of one statement and of several.
-/
import Lox.Statement
import Lox.Proofs.Expression

namespace Lox

open Grammar (Level Derives Expression Statement Statements)

namespace Cursor

-- ================================================ an expression's end

/-- A parsed expression has taken its tokens and stands before a
terminator. -/
theorem takes_of_expression {c c' : Cursor} {e : Node} (h : c.expression = (.ok e, c')) :
    ∃ ts z c'', Expression ts e ∧ c'.next = (some z, c'') ∧ c.Takes (ts ++ [z]) c'' := by
  obtain ⟨before, z, after, hc, -, he, rfl⟩ := expression_eq_ok_iff.1 h
  refine ⟨_, z, _, he, ?_, takes_of_pending hc⟩
  rw [next_of_pending (List.nil_append _).symm rfl]
  simp

/-- Where the tokens of an expression come, and then one that ends expressions,
that expression is parsed and its end is left in front. -/
theorem expression_of_takes {c c'' : Cursor} {ts : List Token} {z : Token} {e : Node}
    (he : Expression ts e) (hz : z.kind.endsExpression = true) (h : c.Takes (ts ++ [z]) c'') :
    ∃ c', c.expression = (.ok e, c') ∧ c'.next = (some z, c'') := by
  obtain ⟨before, after, hc, hts, -⟩ := exists_events_of_tokensOf
    (by rw [h.tokens, List.append_assoc, List.singleton_append])
  have htakes := takes_of_pending hc
  rw [hts] at htakes
  obtain rfl := h.unique htakes
  have hparse := (expression_eq_ok_iff (y := {})).2
    ⟨before, z, after, hc, hz, hts ▸ he, rfl⟩
  refine ⟨_, hparse, ?_⟩
  rw [next_of_pending (List.nil_append _).symm rfl]
  simp

/-- An expression, a semicolon after it, and the tree made of it. -/
def ended (c : Cursor) (fault : SyntaxFault) (make : Node → Node) : Parsed Node :=
  c.expression.andThen fun e c =>
    (c.expect .semicolon fault).andThen fun _ c => (.ok (make e), c)

/-- Expecting a kind takes the next token and looks at its kind. -/
theorem expect_of_next {c c' : Cursor} {t : Token} (h : c.next = (some t, c')) (kind : Kind)
    (fault : SyntaxFault) :
    c.expect kind fault
      = if t.kind = kind then (.ok t, c') else (.error (.rejected fault (some t)), c') := by
  unfold expect
  rw [h]

/-- An expression that ends at a semicolon is a statement's. -/
theorem ended_eq_ok_iff {c c' : Cursor} {fault : SyntaxFault} {make : Node → Node} {n : Node} :
    c.ended fault make = (.ok n, c')
      ↔ ∃ ts z e, Expression ts e ∧ z.kind = .semicolon ∧ n = make e ∧ c.Takes (ts ++ [z]) c' := by
  unfold ended
  rw [Parsed.andThen_eq_ok_iff]
  constructor
  · rintro ⟨e, c₁, he, h⟩
    obtain ⟨ts, z, c₂, hexp, hnext, htakes⟩ := takes_of_expression he
    rw [expect_of_next hnext] at h
    by_cases hz : z.kind = .semicolon
    · rw [if_pos hz] at h
      cases h
      exact ⟨ts, z, e, hexp, hz, rfl, htakes⟩
    · rw [if_neg hz] at h
      cases h
  · rintro ⟨ts, z, e, hexp, hz, rfl, htakes⟩
    obtain ⟨c₁, he, hnext⟩ := expression_of_takes hexp (by rw [hz]; rfl) htakes
    refine ⟨e, c₁, he, ?_⟩
    rw [expect_of_next hnext, if_pos hz]
    rfl

theorem expect_eq_ok_iff {c c' : Cursor} {kind : Kind} {fault : SyntaxFault} {t : Token} :
    c.expect kind fault = (.ok t, c') ↔ c.next = (some t, c') ∧ t.kind = kind := by
  constructor
  · intro h
    unfold expect at h
    split at h
    · cases h
    · next t' after hnext =>
        split at h
        · next hk =>
            cases h
            exact ⟨hnext, hk⟩
        · cases h
  · rintro ⟨hnext, hk⟩
    rw [expect_of_next hnext, if_pos hk]

-- ===================================================== simple statements

/-- A declaration without an initial value, from after its first word. -/
def Declares (c : Cursor) (n : Node) (c' : Cursor) : Prop :=
  ∃ x z, x.kind = .identifier ∧ z.kind = .semicolon ∧ n = .declare x.lexeme ∧ c.Takes [x, z] c'

/-- A declaration with an initial value, from after its first word. -/
def Defines (c : Cursor) (n : Node) (c' : Cursor) : Prop :=
  ∃ x eq ts z e, x.kind = .identifier ∧ eq.kind = .equal ∧ Expression ts e ∧ z.kind = .semicolon
    ∧ n = .define x.lexeme e ∧ c.Takes (x :: eq :: (ts ++ [z])) c'

/-- Behind `var` there is a declaration or a definition, and nothing else
parses. -/
theorem varRest_eq_ok_iff {c c' : Cursor} {n : Node} :
    c.varRest = (.ok n, c') ↔ c.Declares n c' ∨ c.Defines n c' := by
  unfold varRest
  rw [Parsed.andThen_eq_ok_iff]
  constructor
  · rintro ⟨x, c₁, hname, h⟩
    obtain ⟨hnext, hx⟩ := expect_eq_ok_iff.1 hname
    simp only [look] at h
    -- with or without an equals sign behind the name
    split at h
    · cases h
    · next t looked hlook =>
        obtain ⟨hfront, rfl⟩ := Prod.mk.inj hlook
        have hnext₁ := next_of_front hfront
        split at h
        · next ht =>
            rw [next_settle] at h
            obtain ⟨ts, z, e, he, hz, rfl, htakes⟩ := ended_eq_ok_iff.1 h
            exact .inr ⟨x, t, ts, z, e, hx, ht, he, hz, rfl, .cons hnext (.cons hnext₁ htakes)⟩
        · unfold declarationEnd at h
          obtain ⟨z, c₂, hz, h⟩ := Parsed.andThen_eq_ok_iff.1 h
          obtain ⟨hnext₂, hk⟩ := expect_eq_ok_iff.1 hz
          rw [next_settle] at hnext₂
          cases h
          exact .inl ⟨x, z, hx, hk, rfl, .cons hnext (.one hnext₂)⟩
  · rintro (⟨x, z, hx, hz, rfl, htakes⟩ | ⟨x, eq, ts, z, e, hx, heq, he, hz, rfl, htakes⟩)
    · obtain ⟨⟩ | ⟨hnext, htakes⟩ := htakes
      obtain ⟨⟩ | ⟨hnext₁, htakes⟩ := htakes
      rename_i c₁ c₂
      cases htakes
      refine ⟨x, c₁, expect_eq_ok_iff.2 ⟨hnext, hx⟩, ?_⟩
      simp only [look, front_of_next hnext₁]
      rw [if_neg (by rw [hz]; decide)]
      unfold declarationEnd
      rw [expect_of_next (by rw [next_settle]; exact hnext₁), if_pos hz]
      rfl
    · obtain ⟨⟩ | ⟨hnext, htakes⟩ := htakes
      obtain ⟨⟩ | ⟨hnext₁, htakes⟩ := htakes
      rename_i c₁ c₂
      refine ⟨x, c₁, expect_eq_ok_iff.2 ⟨hnext, hx⟩, ?_⟩
      simp only [look, front_of_next hnext₁]
      rw [if_pos heq, next_settle, hnext₁]
      exact ended_eq_ok_iff.2 ⟨ts, z, e, he, hz, rfl, htakes⟩

/-- An expression and a semicolon are a statement, of the form its root
decides. -/
theorem statement_of_expression {ts : List Token} {z : Token} {e : Node} (he : Expression ts e)
    (hz : z.kind = .semicolon) : Statement (ts ++ [z]) (asStatement e) := by
  cases e with
  | assignment x value => exact .assign he hz
  | _ => exact .expression he (fun _ _ h => by cases h) hz

/-- Only an assignment becomes a statement of a form of its own. -/
theorem asStatement_of_ne {e : Node} (h : ∀ x value, e ≠ .assignment x value) :
    asStatement e = .exprStmt e := by
  cases e with
  | assignment x value => exact absurd rfl (h x value)
  | _ => rfl

/-- What parses as a simple statement is one of the grammar. -/
theorem statement_of_simple {c c' : Cursor} {t : Token} {n : Node} (hfront : c.front? = some t)
    (hsettle : c.settle = c) (h : c.simple t.kind = (.ok n, c')) :
    ∃ ts, Statement ts n ∧ c.Takes ts c' := by
  have hnext := next_of_front (by rw [hsettle]; exact hfront)
  unfold simple at h
  split at h
  · next hk =>
      obtain ⟨ts, z, e, he, hz, rfl, htakes⟩ := ended_eq_ok_iff.1 h
      exact ⟨_, .print hk he hz, .cons hnext htakes⟩
  · next hk =>
      rcases varRest_eq_ok_iff.1 h with ⟨x, z, hx, hz, rfl, htakes⟩
        | ⟨x, eq, ts, z, e, hx, heq, he, hz, rfl, htakes⟩
      · exact ⟨_, .declare hk hx hz, .cons hnext htakes⟩
      · exact ⟨_, .define hk hx heq he hz, .cons hnext htakes⟩
  · obtain ⟨ts, z, e, he, hz, rfl, htakes⟩ := ended_eq_ok_iff.1 h
    exact ⟨_, statement_of_expression he hz, htakes⟩

/-- The kinds by which the parser tells other statements, and the end of a
block, from an expression. -/
def marks : List Kind :=
  [.printKw, .varKw, .leftBrace, .rightBrace, .eof]

/-- No expression starts with a mark. -/
theorem first_of_derives {l : Level} {ts : List Token} {e : Node} (h : Derives l ts e) :
    ∃ t rest, ts = t :: rest ∧ t.kind ∉ marks := by
  induction h with
  | assignment hx _ _ _ => exact ⟨_, _, rfl, by rw [hx]; decide⟩
  | binary _ _ _ ihl _ =>
      obtain ⟨t, rest, rfl, ht⟩ := ihl
      exact ⟨t, _, rfl, ht⟩
  | @unary op t ts operand hop _ _ =>
      refine ⟨t, ts, rfl, ?_⟩
      generalize t.kind = k at hop
      cases k <;> first | decide | cases hop
  | @literal t v hv =>
      refine ⟨t, [], rfl, ?_⟩
      unfold Grammar.literal? at hv
      generalize t.kind = k at hv
      cases k <;> first | decide | cases hv
  | name hx => exact ⟨_, [], rfl, by rw [hx]; decide⟩
  | group hl _ _ _ => exact ⟨_, _, rfl, by rw [hl]; decide⟩
  | tighter _ ih => exact ih

/-- Where an expression and a semicolon come, the parser takes them for a
statement. -/
theorem exprRest_of_takes {c c' : Cursor} {ts : List Token} {z : Token} {e : Node}
    (he : Expression ts e) (hz : z.kind = .semicolon) (h : c.Takes (ts ++ [z]) c') :
    ∃ t, c.settle.front? = some t ∧ t.kind ∉ marks
      ∧ c.settle.simple t.kind = (.ok (asStatement e), c') := by
  obtain ⟨t, rest, rfl, ht⟩ := first_of_derives he
  refine ⟨t, front_of_takes h, ht, ?_⟩
  have hended : c.settle.exprRest = (.ok (asStatement e), c') :=
    ended_eq_ok_iff.2 ⟨_, z, e, he, hz, rfl, takes_settle.2 h⟩
  unfold simple
  split
  · next hk => exact absurd (by rw [hk]; decide) ht
  · next hk => exact absurd (by rw [hk]; decide) ht
  · exact hended

/-- The parser reads a statement that is no block in one go. -/
theorem simple_of_statement {c c' : Cursor} {ts : List Token} {n : Node} (h : Statement ts n)
    (hblock : ∀ ss, n ≠ .block ss) (htakes : c.Takes ts c') :
    ∃ t, c.settle.front? = some t ∧ t.kind ∉ [.leftBrace, .rightBrace, .eof]
      ∧ c.settle.simple t.kind = (.ok n, c') := by
  have hmarks {k : Kind} (hk : k ∉ marks) : k ∉ [.leftBrace, .rightBrace, .eof] :=
    fun hmem => hk (List.mem_cons_of_mem _ (List.mem_cons_of_mem _ hmem))
  cases h with
  | print hk he hz =>
      obtain ⟨⟩ | ⟨hnext, htakes⟩ := htakes
      refine ⟨_, front_of_next hnext, by rw [hk]; decide, ?_⟩
      rw [hk]
      show (c.settle.next).2.printRest = _
      rw [next_settle, hnext]
      exact ended_eq_ok_iff.2 ⟨_, _, _, he, hz, rfl, htakes⟩
  | declare hk hx hz =>
      obtain ⟨⟩ | ⟨hnext, htakes⟩ := htakes
      refine ⟨_, front_of_next hnext, by rw [hk]; decide, ?_⟩
      rw [hk]
      show (c.settle.next).2.varRest = _
      rw [next_settle, hnext]
      exact varRest_eq_ok_iff.2 (.inl ⟨_, _, hx, hz, rfl, htakes⟩)
  | define hk hx heq he hz =>
      obtain ⟨⟩ | ⟨hnext, htakes⟩ := htakes
      refine ⟨_, front_of_next hnext, by rw [hk]; decide, ?_⟩
      rw [hk]
      show (c.settle.next).2.varRest = _
      rw [next_settle, hnext]
      exact varRest_eq_ok_iff.2 (.inr ⟨_, _, _, _, _, hx, heq, he, hz, rfl, htakes⟩)
  | block _ _ _ => exact absurd rfl (hblock _)
  | assign he hz =>
      obtain ⟨t, hfront, ht, hsimple⟩ := exprRest_of_takes he hz htakes
      exact ⟨t, hfront, hmarks ht, hsimple⟩
  | expression he hroot hz =>
      obtain ⟨t, hfront, ht, hsimple⟩ := exprRest_of_takes he hz htakes
      rw [asStatement_of_ne hroot] at hsimple
      exact ⟨t, hfront, hmarks ht, hsimple⟩

-- ================================================================= turns

/-- What a turn of the statement loop can do: open a block, read a statement
that is the answer or a member of the innermost block, close a block that is
the answer or a member of the next one, or fail. -/
inductive Moves (c : Cursor) : OpenBlocks → Turn → Prop where
  | opened {blocks : OpenBlocks} {t : Token} {c' : Cursor} :
      t.kind = .leftBrace → c.Takes [t] c' → Moves c blocks (.more ([] :: blocks) c')
  | statement {ts : List Token} {n : Node} {c' : Cursor} :
      Statement ts n → c.Takes ts c' → Moves c [] (.done (.ok n, c'))
  | member {ss : List Node} {outer : OpenBlocks} {ts : List Token} {n : Node} {c' : Cursor} :
      Statement ts n → c.Takes ts c' → Moves c (ss :: outer) (.more ((n :: ss) :: outer) c')
  | last {ss : List Node} {t : Token} {c' : Cursor} :
      t.kind = .rightBrace → c.Takes [t] c' → Moves c [ss] (.done (.ok (.block ss.reverse), c'))
  | inner {ss ss' : List Node} {outer : OpenBlocks} {t : Token} {c' : Cursor} :
      t.kind = .rightBrace → c.Takes [t] c' →
      Moves c (ss :: ss' :: outer) (.more ((.block ss.reverse :: ss') :: outer) c')
  | failed {blocks : OpenBlocks} {failure : ParseFailure} {c' : Cursor} :
      Moves c blocks (.done (.error failure, c'))

/-- A statement that is read is the answer, or a member of the innermost
block. -/
theorem Moves.read {c c' : Cursor} {ts : List Token} {n : Node} (h : Statement ts n)
    (htakes : c.Takes ts c') (blocks : OpenBlocks) : c.Moves blocks (.place n c' blocks) := by
  cases blocks with
  | nil => exact .statement h htakes
  | cons ss outer => exact .member h htakes

/-- So is a block that is closed, seen from the block around it. -/
theorem Moves.closed {c c' : Cursor} {t : Token} (ht : t.kind = .rightBrace)
    (htakes : c.Takes [t] c') (ss : List Node) (outer : OpenBlocks) :
    c.Moves (ss :: outer) (.place (.block ss.reverse) c' outer) := by
  cases outer with
  | nil => exact .last ht htakes
  | cons ss' outer => exact .inner ht htakes

theorem ne_nil_of_statement {ts : List Token} {n : Node} (h : Statement ts n) : ts ≠ [] := by
  cases h <;> simp

/-- What begins at a token opens a block or reads a statement, or it fails. -/
theorem begin_moves {c : Cursor} {t : Token} (hfront : c.settle.front? = some t)
    (blocks : OpenBlocks) : c.Moves blocks (c.settle.begin t blocks) := by
  unfold begin
  split
  · next hk =>
      rw [next_settle]
      exact .opened hk (.one (next_of_front hfront))
  · split
    · next n rest heq =>
        obtain ⟨ts, hts, htakes⟩ := statement_of_simple hfront (settle_settle c) heq
        exact .read hts (takes_of_settle (ne_nil_of_statement hts) htakes) blocks
    · exact .failed

/-- Every turn is one of the moves. -/
theorem turn_moves (c : Cursor) (blocks : OpenBlocks) : c.Moves blocks (c.turn blocks) := by
  unfold turn
  dsimp only
  split
  · exact .failed
  · exact .failed
  · next t hfront => exact begin_moves hfront []
  · next t ss outer hfront =>
      split
      · next hk =>
          rw [next_settle]
          exact .closed hk (.one (next_of_front hfront)) ss outer
      · split
        · exact .failed
        · exact begin_moves hfront (ss :: outer)

-- ================================================================ soundness

/-- `Closes blocks ts n`: the tokens `ts` finish the open blocks, and the
outermost of them, or the statement if none is open, has the tree `n`. -/
inductive Closes : OpenBlocks → List Token → Node → Prop where
  | statement {ts : List Token} {n : Node} : Statement ts n → Closes [] ts n
  | last {ss : List Node} {t : Token} :
      t.kind = .rightBrace → Closes [ss] [t] (.block ss.reverse)
  | inner {ss ss' : List Node} {outer : OpenBlocks} {t : Token} {ts : List Token} {n : Node} :
      t.kind = .rightBrace → Closes ((.block ss.reverse :: ss') :: outer) ts n →
      Closes (ss :: ss' :: outer) (t :: ts) n
  | member {ss : List Node} {outer : OpenBlocks} {us ts : List Token} {s n : Node} :
      Statement us s → Closes ((s :: ss) :: outer) ts n → Closes (ss :: outer) (us ++ ts) n

theorem statements_append {us vs : List Token} {ss ss' : List Node} (h : Statements us ss)
    (h' : Statements vs ss') : Statements (us ++ vs) (ss ++ ss') := by
  induction ss generalizing us with
  | nil =>
      cases h
      exact h'
  | cons s ss ih =>
      cases h with
      | cons hs hss =>
          rw [List.append_assoc, List.cons_append]
          exact .cons hs (ih hss)

/-- What a block with the statements `ss` so far asks for, together with its
opening brace and the tokens of `ss`, is a member of what is around it. -/
theorem Closes.opened {ss : List Node} {outer : OpenBlocks} {t : Token} {us ts : List Token}
    {n : Node} (h : Closes (ss :: outer) ts n) (ht : t.kind = .leftBrace)
    (hss : Statements us ss.reverse) : Closes outer (t :: (us ++ ts)) n := by
  generalize hblocks : ss :: outer = blocks at h
  induction h generalizing ss outer us with
  | statement => cases hblocks
  | last hr =>
      cases hblocks
      exact .statement (.block ht hss hr)
  | @inner ss ss' outer r ts n hr hrest _ =>
      cases hblocks
      have h := Closes.member (.block ht hss hr) hrest
      rwa [List.cons_append, List.append_assoc] at h
  | @member ss outer vs ts s n hs _ ih =>
      cases hblocks
      have hss' : Statements (us ++ vs) (s :: ss).reverse := by
        have happend := statements_append hss (.cons hs .nil)
        rwa [List.append_nil, ← List.reverse_cons] at happend
      have h := ih hss' rfl
      rwa [List.append_assoc] at h

/-- A parse that succeeds inside open blocks has finished them. -/
theorem closes_of_statementIn {blocks : OpenBlocks} {c c' : Cursor} {n : Node}
    (h : statementIn blocks c = (.ok n, c')) : ∃ ts, Closes blocks ts n ∧ c.Takes ts c' := by
  fun_induction statementIn blocks c with
  | case1 blocks c r hturn =>
      have hmoves := turn_moves c blocks
      rw [hturn, h] at hmoves
      cases hmoves with
      | statement hs htakes => exact ⟨_, .statement hs, htakes⟩
      | last ht htakes => exact ⟨_, .last ht, htakes⟩
  | case2 blocks c blocks' c₁ hturn ih =>
      obtain ⟨ts, hcloses, htakes⟩ := ih h
      have hmoves := turn_moves c blocks
      rw [hturn] at hmoves
      cases hmoves with
      | opened ht htakes₁ => exact ⟨_, hcloses.opened ht .nil, htakes₁.trans htakes⟩
      | member hs htakes₁ => exact ⟨_, .member hs hcloses, htakes₁.trans htakes⟩
      | inner ht htakes₁ => exact ⟨_, .inner ht hcloses, htakes₁.trans htakes⟩

/-- A parsed statement has taken the tokens of a statement, and no more. -/
theorem takes_of_statement {c c' : Cursor} {n : Node} (h : c.statement = (.ok n, c')) :
    ∃ ts, Statement ts n ∧ c.Takes ts c' := by
  obtain ⟨ts, hcloses, htakes⟩ := closes_of_statementIn h
  cases hcloses with
  | statement hs => exact ⟨ts, hs, htakes⟩

-- ============================================================= completeness

end Cursor

/-- What the loop makes of a turn. -/
def Turn.resume : Turn → Parsed Node
  | .done r => r
  | .more blocks c => c.statementIn blocks

namespace Cursor

/-- A statement is one turn, and then what the turn leaves to do. -/
theorem statementIn_eq_resume (blocks : OpenBlocks) (c : Cursor) :
    statementIn blocks c = (c.turn blocks).resume := by
  rw [statementIn]
  split
  · next h => rw [h]; rfl
  · next h => rw [h]; rfl

/-- A token that neither closes a block nor is the end token starts a
statement, whatever blocks are open. -/
theorem turn_eq_begin {c : Cursor} {t : Token} (hfront : c.settle.front? = some t)
    (hr : t.kind ≠ .rightBrace) (hend : t.kind ≠ .eof) (blocks : OpenBlocks) :
    c.turn blocks = c.settle.begin t blocks := by
  unfold turn
  dsimp only
  rw [hfront]
  cases blocks with
  | nil => rfl
  | cons ss outer =>
      dsimp only
      rw [if_neg hr, if_neg hend]

/-- A left brace opens a block. -/
theorem turn_of_opening {c c' : Cursor} {t : Token} (ht : t.kind = .leftBrace)
    (hnext : c.next = (some t, c')) (blocks : OpenBlocks) :
    c.turn blocks = .more ([] :: blocks) c' := by
  have hfront := front_of_next hnext
  rw [turn_eq_begin hfront (by rw [ht]; decide) (by rw [ht]; decide), begin, if_pos ht,
    next_settle, hnext]

/-- A right brace closes the innermost block, if one is open. -/
theorem turn_of_closing {c c' : Cursor} {t : Token} (ht : t.kind = .rightBrace)
    (hnext : c.next = (some t, c')) (ss : List Node) (outer : OpenBlocks) :
    c.turn (ss :: outer) = .place (.block ss.reverse) c' outer := by
  unfold turn
  dsimp only
  rw [front_of_next hnext]
  dsimp only
  rw [if_pos ht, next_settle, hnext]

/-- Any other statement is read in one turn. -/
theorem turn_of_simple {c c' : Cursor} {ts : List Token} {n : Node} (h : Statement ts n)
    (hblock : ∀ ss, n ≠ .block ss) (htakes : c.Takes ts c') (blocks : OpenBlocks) :
    c.turn blocks = .place n c' blocks := by
  obtain ⟨t, hfront, ht, hsimple⟩ := simple_of_statement h hblock htakes
  simp only [List.mem_cons, List.not_mem_nil, or_false, not_or] at ht
  rw [turn_eq_begin hfront ht.2.1 ht.2.2, begin, if_neg ht.1, hsimple]

mutual

/-- Reading the tokens of a statement places its tree in the innermost open
block. -/
theorem statementIn_of_statement {ts : List Token} {n : Node} (h : Statement ts n)
    (blocks : OpenBlocks) {c c' : Cursor} (htakes : c.Takes ts c') :
    statementIn blocks c = (Turn.place n c' blocks).resume := by
  by_cases hblock : ∃ ss, n = .block ss
  · obtain ⟨ss, rfl⟩ := hblock
    match h with
    | .block hfirst hss hlast =>
        obtain ⟨⟩ | ⟨hnext, hrest⟩ := htakes
        obtain ⟨c₂, hus, hclose⟩ := hrest.append_inv
        obtain ⟨⟩ | ⟨hnext₂, ⟨⟩⟩ := hclose
        rw [statementIn_eq_resume, turn_of_opening hfirst hnext]
        show statementIn ([] :: blocks) _ = _
        rw [statementIn_of_statements hss [] blocks hus, statementIn_eq_resume,
          turn_of_closing hlast hnext₂, List.append_nil, List.reverse_reverse]
  · have hplain : ∀ ss, n ≠ .block ss := fun ss hn => hblock ⟨ss, hn⟩
    rw [statementIn_eq_resume, turn_of_simple h hplain htakes]

/-- Reading the tokens of several statements adds their trees to the
innermost open block. -/
theorem statementIn_of_statements {ts : List Token} {ss : List Node} (h : Statements ts ss)
    (read : List Node) (outer : OpenBlocks) {c c' : Cursor} (htakes : c.Takes ts c') :
    statementIn (read :: outer) c = statementIn ((ss.reverse ++ read) :: outer) c' := by
  match h with
  | .nil =>
      cases htakes
      rfl
  | @Statements.cons us vs s ss hs hss =>
      obtain ⟨c₁, hus, hvs⟩ := htakes.append_inv
      rw [statementIn_of_statement hs (read :: outer) hus]
      show statementIn ((s :: read) :: outer) c₁ = _
      rw [statementIn_of_statements hss (s :: read) outer hvs, List.reverse_cons,
        List.append_assoc, List.singleton_append]

end

/-- The tokens of a statement parse to its tree, whatever comes after. -/
theorem statement_of_takes {c c' : Cursor} {ts : List Token} {n : Node} (h : Statement ts n)
    (htakes : c.Takes ts c') : c.statement = (.ok n, c') :=
  statementIn_of_statement h [] htakes

end Cursor

end Lox

/-
Parsing a program is deriving it.

# How a statement can fail

Over tokens that a scan can give, a parse fails only by an objection to a
token: the end token stops every form of statement before the tokens run
out. `Sourced` is what is left of a scan while its end token has not been
taken. Every parser that succeeds hands on such a cursor, since no statement
ends in the end token; every parser that fails on one objects to a token
(`Parsed.Objects`).

# A program, statement by statement

The program parser gives a statement exactly if some first tokens derive
one (`programStep_eq_ok_iff`), so what it has read is always derived from
what it has taken, and where it stops is the end or a statement that fails
(`program_takes`). Conversely derived statements are read through
(`program_of_statements`).
-/
import Lox.Proofs.Statement
import Lox.Proofs.Source

namespace Lox

open Grammar (Expression Statement Statements Program)

-- ======================================================== sourced cursors

/-- What is left of a scan before its end token is taken. -/
def Cursor.Sourced (c : Cursor) : Prop :=
  ∃ body last, tokensOf c.pending = body ++ [last] ∧ last.kind = .eof ∧ ∀ t ∈ body, t.Scanned

namespace Cursor

/-- A cursor at the start of a text is in it. -/
theorem sourced_ofSource (source : String) : (Cursor.ofSource source).Sourced :=
  tokenize_eq source

/-- Any rest of the tokens that is not empty has the end token. -/
theorem Sourced.rest {c c' : Cursor} {us : List Token} (h : c.Sourced)
    (hc : tokensOf c.pending = us ++ tokensOf c'.pending) (hne : tokensOf c'.pending ≠ []) :
    c'.Sourced := by
  obtain ⟨body, last, hbody, hlast, hscanned⟩ := h
  have hfront := (List.dropLast_concat_getLast hne).symm
  rw [hfront, ← List.append_assoc, hbody] at hc
  obtain ⟨rfl, hz⟩ := List.append_inj' hc rfl
  injection hz with hz
  rw [← hz] at hfront
  exact ⟨_, last, hfront, hlast, fun t ht => hscanned t (List.mem_append_right _ ht)⟩

/-- Passing over errors does not leave the text. -/
theorem Sourced.settle {c : Cursor} (h : c.Sourced) : c.settle.Sourced := by
  obtain ⟨body, last, hbody, hrest⟩ := h
  exact ⟨body, last, by rw [tokensOf_settle, hbody], hrest⟩

/-- There is a token to look at. -/
theorem Sourced.front {c : Cursor} (h : c.Sourced) : ∃ t, c.settle.front? = some t := by
  obtain ⟨body, last, hbody, -⟩ := h
  rw [front?_settle, hbody]
  cases body with
  | nil => exact ⟨last, rfl⟩
  | cons t _ => exact ⟨t, rfl⟩

/-- Taking tokens stays in the text until the end token is taken. -/
theorem Sourced.takes {c c' : Cursor} {us : List Token} {z : Token} (h : c.Sourced)
    (htakes : c.Takes (us ++ [z]) c') (hz : z.kind ≠ .eof) : c'.Sourced := by
  apply h.rest htakes.tokens
  intro hnil
  obtain ⟨body, last, hbody, hlast, -⟩ := h
  rw [htakes.tokens, hnil, List.append_nil] at hbody
  obtain ⟨-, heq⟩ := List.append_inj' hbody rfl
  cases heq
  exact hz hlast

theorem Sourced.takes_one {c c' : Cursor} {t : Token} (h : c.Sourced) (htakes : c.Takes [t] c')
    (ht : t.kind ≠ .eof) : c'.Sourced :=
  @Sourced.takes c c' [] t h htakes ht

theorem Sourced.next {c c' : Cursor} {t : Token} (h : c.Sourced) (hnext : c.next = (some t, c'))
    (ht : t.kind ≠ .eof) : c'.Sourced :=
  h.takes_one (.one hnext) ht

/-- The tokens up to the first that can end an expression. -/
theorem Sourced.terminator {c : Cursor} (h : c.Sourced) :
    ∃ ts z rest, tokensOf c.pending = ts ++ z :: rest ∧ z.kind.endsExpression = true
      ∧ ∀ t ∈ ts, t.kind.endsExpression = false ∧ t.Scanned := by
  obtain ⟨body, last, hbody, hlast, hscanned⟩ := h
  rw [hbody]
  clear hbody
  induction body with
  | nil => exact ⟨[], last, [], rfl, by rw [hlast]; rfl, fun t ht => by cases ht⟩
  | cons t body ih =>
      rw [List.forall_mem_cons] at hscanned
      cases hends : t.kind.endsExpression with
      | true => exact ⟨[], t, body ++ [last], rfl, hends, fun t ht => by cases ht⟩
      | false =>
          obtain ⟨ts, z, rest, heq, hz, hts⟩ := ih hscanned.2
          refine ⟨t :: ts, z, rest, by rw [List.cons_append, heq]; rfl, hz, ?_⟩
          rw [List.forall_mem_cons]
          exact ⟨⟨hends, hscanned.1⟩, hts⟩

end Cursor

-- ============================================================== failures

/-- A parse that, if it fails, objects to a token. -/
def Parsed.Objects {α : Type} (r : Parsed α) : Prop :=
  ∀ failure, r.1 = .error failure → ∃ fault t, failure = .rejected fault (some t)

theorem Parsed.objects_ok {α : Type} (a : α) (c : Cursor) : Parsed.Objects (.ok a, c) := by
  intro failure h
  cases h

/-- A parse that objects to a token does so. -/
theorem Parsed.objects_rejected {α : Type} (fault : SyntaxFault) (t : Token) (c : Cursor) :
    Parsed.Objects ((.error (.rejected fault (some t)), c) : Parsed α) := by
  intro failure h
  cases h
  exact ⟨fault, t, rfl⟩

/-- If a parse and what follows it object to tokens, so does the whole. -/
theorem Parsed.Objects.andThen {α β : Type} {r : Parsed α} {k : α → Cursor → Parsed β}
    (h : r.Objects) (hk : ∀ a c, r = (.ok a, c) → (k a c).Objects) : (r.andThen k).Objects := by
  rcases r with ⟨failure | a, c⟩
  · intro failure' hfailure
    cases hfailure
    exact h failure rfl
  · exact hk a c rfl

namespace Cursor

/-- A token that is not the expected one is objected to. -/
theorem Sourced.expect_objects {c : Cursor} (h : c.Sourced) (kind : Kind) (fault : SyntaxFault) :
    (c.expect kind fault).Objects := by
  obtain ⟨t, hfront⟩ := h.front
  rw [expect_of_next (next_of_front hfront)]
  by_cases hk : t.kind = kind
  · rw [if_pos hk]
    exact Parsed.objects_ok _ _
  · rw [if_neg hk]
    exact Parsed.objects_rejected _ _ _

/-- In a text, an expression that fails objects to a token: there is always an
end token to object to. -/
theorem Sourced.expression_objects {c : Cursor} (h : c.Sourced) : c.expression.Objects := by
  obtain ⟨ts, z, rest, hc, hz, hts⟩ := h.terminator
  intro failure hfailure
  obtain ⟨fault, t, -, hf⟩ := expression_error (fun t ht => (hts t ht).1)
    (fun t ht => (hts t ht).2.numeral) hz hc hfailure
  exact ⟨fault, t, hf⟩

/-- After an expression, its terminator is still there. -/
theorem Sourced.expression {c c' : Cursor} {e : Node} (h : c.Sourced)
    (he : c.expression = (.ok e, c')) : c'.Sourced := by
  obtain ⟨before, z, after, hc, -, -, rfl⟩ := expression_eq_ok_iff.1 he
  refine h.rest (by rw [hc, tokensOf_append]) ?_
  rw [tokensOf_token]
  exact List.cons_ne_nil _ _

/-- A statement of one expression and a semicolon objects to a token. -/
theorem Sourced.ended_objects {c : Cursor} (h : c.Sourced) (fault : SyntaxFault)
    (make : Node → Node) : (c.ended fault make).Objects := by
  apply h.expression_objects.andThen
  intro e c' he
  apply ((h.expression he).expect_objects _ _).andThen
  intro _ _ _
  exact Parsed.objects_ok _ _

theorem Sourced.declarationEnd_objects {c : Cursor} (h : c.Sourced) (n : Node) :
    (c.declarationEnd n).Objects := by
  apply (h.expect_objects _ _).andThen
  intro _ _ _
  exact Parsed.objects_ok _ _

theorem Sourced.varRest_objects {c : Cursor} (h : c.Sourced) : c.varRest.Objects := by
  apply (h.expect_objects _ _).andThen
  intro x c₁ hname
  obtain ⟨hnext, hx⟩ := expect_eq_ok_iff.1 hname
  have h₁ := h.next hnext (by rw [hx]; decide)
  obtain ⟨t, hfront⟩ := h₁.front
  simp only [look, hfront]
  by_cases ht : t.kind = .equal
  · rw [if_pos ht, next_settle]
    have h₂ := h₁.next (next_of_front hfront) (by rw [ht]; decide)
    exact h₂.ended_objects _ _
  · rw [if_neg ht]
    exact h₁.settle.declarationEnd_objects _

theorem Sourced.simple_objects {c : Cursor} (h : c.Sourced) {t : Token}
    (hfront : c.settle.front? = some t) : (c.simple t.kind).Objects := by
  have hnext := next_of_front hfront
  unfold simple
  split
  · next hk => exact (h.next hnext (by rw [hk]; decide)).ended_objects _ _
  · next hk => exact (h.next hnext (by rw [hk]; decide)).varRest_objects
  · exact h.ended_objects _ _

/-- A statement that cannot begin objects to a token, with or without open
blocks around it. -/
theorem Sourced.begin_error {c c' : Cursor} (h : c.Sourced) {t : Token} {blocks : OpenBlocks}
    {failure : ParseFailure} (hfront : c.settle.front? = some t)
    (herror : c.begin t blocks = .done (.error failure, c')) :
    ∃ fault t, failure = .rejected fault (some t) := by
  unfold begin at herror
  split at herror
  · cases herror
  · have hobjects := h.simple_objects hfront
    split at herror
    · cases blocks <;> cases herror
    · next hsimple =>
        rw [hsimple] at hobjects
        cases herror
        exact hobjects _ rfl

theorem Sourced.turn_error {c c' : Cursor} (h : c.Sourced) {blocks : OpenBlocks}
    {failure : ParseFailure} (herror : c.turn blocks = .done (.error failure, c')) :
    ∃ fault t, failure = .rejected fault (some t) := by
  obtain ⟨t, hfront⟩ := h.front
  have hbegin := @Sourced.begin_error c.settle c' h.settle t
  rw [settle_settle] at hbegin
  unfold turn at herror
  simp only [hfront] at herror
  cases blocks with
  | nil => exact hbegin hfront herror
  | cons ss outer =>
      dsimp only at herror
      split at herror
      · cases outer <;> cases herror
      · split at herror
        · cases herror
          exact ⟨_, t, rfl⟩
        · exact hbegin hfront herror

/-- A statement ends in a semicolon or a closing brace. -/
theorem last_of_statement {ts : List Token} {n : Node} (h : Statement ts n) :
    ∃ us z, ts = us ++ [z] ∧ (z.kind = .semicolon ∨ z.kind = .rightBrace) := by
  cases h with
  | print _ _ hz => exact ⟨_ :: _, _, rfl, .inl hz⟩
  | @declare first x last _ _ hz => exact ⟨[first, x], last, rfl, .inl hz⟩
  | define _ _ _ _ hz => exact ⟨_ :: _ :: _ :: _, _, rfl, .inl hz⟩
  | block _ _ hz => exact ⟨_ :: _, _, rfl, .inr hz⟩
  | assign _ hz => exact ⟨_, _, rfl, .inl hz⟩
  | expression _ _ hz => exact ⟨_, _, rfl, .inl hz⟩

/-- The tokens of a statement do not reach beyond the text. -/
theorem Sourced.statement {c c' : Cursor} (h : c.Sourced) {ts : List Token} {n : Node}
    (hs : Statement ts n) (htakes : c.Takes ts c') : c'.Sourced := by
  obtain ⟨us, z, rfl, hz⟩ := last_of_statement hs
  apply h.takes htakes
  rcases hz with hz | hz <;> rw [hz] <;> decide

/-- A turn that goes on leaves the end token where it is. -/
theorem Sourced.turn_more {c c' : Cursor} (h : c.Sourced) {blocks blocks' : OpenBlocks}
    (hmore : c.turn blocks = .more blocks' c') : c'.Sourced := by
  have hmoves := turn_moves c blocks
  rw [hmore] at hmoves
  cases hmoves with
  | opened ht htakes => exact h.takes_one htakes (by rw [ht]; decide)
  | member hs htakes => exact h.statement hs htakes
  | inner ht htakes => exact h.takes_one htakes (by rw [ht]; decide)

/-- Whatever blocks are open, a statement that fails objects to a token. -/
theorem Sourced.statementIn_objects {c : Cursor} (h : c.Sourced) (blocks : OpenBlocks) :
    (statementIn blocks c).Objects := by
  fun_induction statementIn blocks c with
  | case1 blocks c r hturn =>
      intro failure hfailure
      exact h.turn_error (hturn.trans (congrArg Turn.done (Prod.ext hfailure rfl)))
  | case2 blocks c blocks' c' hturn ih => exact ih (h.turn_more hturn)

-- ================================================ statement by statement

/-- The end token starts no statement. -/
theorem first_of_statement {ts : List Token} {n : Node} (h : Statement ts n) :
    ∃ t rest, ts = t :: rest ∧ t.kind ≠ .eof := by
  have hexpression {us : List Token} {z : Token} {e : Node} (he : Expression us e) :
      ∃ t rest, us ++ [z] = t :: rest ∧ t.kind ≠ .eof := by
    obtain ⟨t, rest, rfl, ht⟩ := first_of_derives he
    exact ⟨t, _, rfl, fun hk => ht (by rw [hk]; decide)⟩
  cases h with
  | print hk _ _ => exact ⟨_, _, rfl, by rw [hk]; decide⟩
  | declare hk _ _ => exact ⟨_, _, rfl, by rw [hk]; decide⟩
  | define hk _ _ _ _ => exact ⟨_, _, rfl, by rw [hk]; decide⟩
  | block hk _ _ => exact ⟨_, _, rfl, by rw [hk]; decide⟩
  | assign he _ => exact hexpression he
  | expression he _ _ => exact hexpression he

/-- Settling first changes nothing about a statement. -/
theorem statement_settle (c : Cursor) : c.settle.statement = c.statement := by
  have hturn : c.settle.turn [] = c.turn [] := by
    unfold turn
    rw [settle_settle]
  unfold statement
  rw [statementIn_eq_resume, hturn, ← statementIn_eq_resume]

/-- `c.AtEnd`: no token is left at `c`, or the end token is next. -/
def AtEnd (c : Cursor) : Prop :=
  ∀ t, c.settle.front? = some t → t.kind = .eof

/-- The program parser gives a statement exactly if it can take the tokens
of one. -/
theorem programStep_eq_ok_iff {c c' : Cursor} {n : Node} :
    c.programStep = (some (.ok n), c') ↔ ∃ ts, Statement ts n ∧ c.Takes ts c' := by
  unfold programStep
  rw [statement_settle]
  constructor
  · intro h
    split at h
    · cases h
    · split at h
      · cases h
      · obtain ⟨hok, rfl⟩ := Prod.mk.inj h
        exact takes_of_statement (Prod.ext (Option.some.inj hok) rfl)
  · rintro ⟨ts, hs, htakes⟩
    rw [statement_of_takes hs htakes]
    obtain ⟨t, rest, rfl, ht⟩ := first_of_statement hs
    rw [front_of_takes htakes]
    exact if_neg ht

/-- The program parser stops exactly at the end of the text. -/
theorem programStep_eq_none_iff {c c' : Cursor} :
    c.programStep = (none, c') ↔ c.AtEnd ∧ c' = c.settle := by
  unfold programStep AtEnd
  constructor
  · intro h
    split at h
    · next hfront =>
        cases h
        exact ⟨fun t ht => (by rw [hfront] at ht; cases ht), rfl⟩
    · next t hfront =>
        split at h
        · next ht =>
            cases h
            exact ⟨fun u hu => Option.some.inj (hfront.symm.trans hu) ▸ ht, rfl⟩
        · cases h
  · rintro ⟨hend, rfl⟩
    split
    · rfl
    · next t hfront => rw [if_pos (hend t hfront)]

/-- If the program parser fails, a statement has, and the text was not at its
end. -/
theorem programStep_error {c c' : Cursor} {failure : ParseFailure}
    (h : c.programStep = (some (.error failure), c')) :
    ¬ c.AtEnd ∧ c.statement = (.error failure, c') := by
  unfold programStep at h
  rw [statement_settle] at h
  split at h
  · cases h
  · next t hfront =>
      split at h
      · cases h
      · next ht =>
          obtain ⟨herror, rfl⟩ := Prod.mk.inj h
          exact ⟨fun hend => ht (hend t hfront), Prod.ext (Option.some.inj herror) rfl⟩

/-- Where the program parser stops: at the end, or at a statement that
fails. -/
inductive Stops (c : Cursor) : Option ParseFailure → Cursor → Prop where
  | atEnd : c.AtEnd → Stops c none c.settle
  | failed {failure : ParseFailure} {c' : Cursor} :
      ¬ c.AtEnd → c.statement = (.error failure, c') → Stops c (some failure) c'

theorem Stops.finished {c c' : Cursor} (h : c.Stops none c') : c.AtEnd := by
  cases h with
  | atEnd hend => exact hend

/-- What the program parser gives is derived from what it has taken. -/
theorem program_takes (c : Cursor) :
    ∃ ts c', Statements ts c.program.1 ∧ c.Takes ts c' ∧ c'.Stops c.program.2.1 c.program.2.2 := by
  fun_induction program c with
  | case1 c h =>
      have hstep : c.programStep = (none, (c.programStep).2) := Prod.ext h rfl
      obtain ⟨hend, hafter⟩ := programStep_eq_none_iff.1 hstep
      rw [hafter]
      exact ⟨[], c, .nil, .nil c, .atEnd hend⟩
  | case2 c failure h =>
      obtain ⟨hend, hstatement⟩ := programStep_error (Prod.ext h rfl)
      exact ⟨[], c, .nil, .nil c, .failed hend hstatement⟩
  | case3 c n h ns failure after hrest ih =>
      obtain ⟨us, hs, htakes⟩ := programStep_eq_ok_iff.1 (Prod.ext h rfl)
      obtain ⟨ts, c', hss, htakes', hstops⟩ := ih
      rw [hrest] at hss hstops
      exact ⟨us ++ ts, c', .cons hs hss, htakes.trans htakes', hstops⟩

/-- The program parser, one statement unrolled. -/
theorem program_eq (c : Cursor) :
    c.program = match c.programStep with
      | (none, c') => ([], none, c')
      | (some (.error failure), c') => ([], some failure, c')
      | (some (.ok n), c') => (n :: c'.program.1, c'.program.2) := by
  rw [program]
  split
  · next h => rw [(Prod.ext h rfl : c.programStep = (none, (c.programStep).2))]
  · next f h => rw [(Prod.ext h rfl : c.programStep = (some (.error f), (c.programStep).2))]
  · next n h => rw [(Prod.ext h rfl : c.programStep = (some (.ok n), (c.programStep).2))]

/-- Derived statements are read through, and the program parser goes on
behind them. -/
theorem program_of_statements {c c' : Cursor} {ts : List Token} {ss : List Node}
    (h : Statements ts ss) (htakes : c.Takes ts c') :
    c.program = (ss ++ c'.program.1, c'.program.2) := by
  induction ss generalizing c ts with
  | nil =>
      cases h
      cases htakes
      rfl
  | cons s ss ih =>
      cases h with
      | cons hs hss =>
          obtain ⟨c₁, hus, hvs⟩ := htakes.append_inv
          rw [program_eq, programStep_eq_ok_iff.2 ⟨_, hs, hus⟩]
          show (s :: c₁.program.1, c₁.program.2) = _
          rw [ih hss hvs]
          rfl

/-- At the end of the text the program is empty. -/
theorem program_atEnd {c : Cursor} (h : c.AtEnd) : c.program = ([], none, c.settle) := by
  rw [program_eq, programStep_eq_none_iff.2 ⟨h, rfl⟩]

-- ============================================================ the result

/-- A failure to parse a source is an objection to one of its tokens. -/
theorem Stops.rejected {c c' : Cursor} {failure : ParseFailure} (hc : c.Sourced)
    (h : c.Stops (some failure) c') : ∃ fault t, failure = .rejected fault (some t) := by
  cases h with
  | failed _ hstatement => exact hc.statementIn_objects [] failure (congrArg Prod.fst hstatement)

/-- The tokens of statements do not reach beyond the text. -/
theorem Sourced.statements {c c' : Cursor} (h : c.Sourced) {ts : List Token} {ss : List Node}
    (hss : Statements ts ss) (htakes : c.Takes ts c') : c'.Sourced := by
  induction ss generalizing c ts with
  | nil =>
      cases hss
      cases htakes
      exact h
  | cons s ss ih =>
      cases hss with
      | cons hs hss =>
          obtain ⟨c₁, hus, hvs⟩ := htakes.append_inv
          exact ih (h.statement hs hus) hss hvs

/-- In a text, a program that fails objects to a token. -/
theorem Sourced.program_rejected {c : Cursor} (h : c.Sourced) {failure : ParseFailure}
    (hfailure : c.program.2.1 = some failure) : ∃ fault t, failure = .rejected fault (some t) := by
  obtain ⟨ts, c', hss, htakes, hstops⟩ := c.program_takes
  rw [hfailure] at hstops
  exact hstops.rejected (h.statements hss htakes)

/-- At the end of a sourced cursor, the end token is all that is left. -/
theorem Sourced.tokens_atEnd {c : Cursor} (h : c.Sourced) (hend : c.AtEnd) :
    ∃ last, tokensOf c.pending = [last] ∧ last.kind = .eof := by
  obtain ⟨body, last, hbody, hlast, hscanned⟩ := h
  cases body with
  | nil => exact ⟨last, hbody, hlast⟩
  | cons t body =>
      have hfront : c.settle.front? = some t := by
        rw [front?_settle, hbody]
        rfl
      exact absurd (hend t hfront) (hscanned t (List.mem_cons_self ..)).not_eof

/-- In a text, the program parser gives statements and no failure exactly if all
tokens left are those statements and the end token. -/
theorem program_eq_iff {c : Cursor} (h : c.Sourced) (ss : List Node) :
    (∃ c', c.program = (ss, none, c')) ↔ Program (tokensOf c.pending) ss := by
  constructor
  · rintro ⟨c', heq⟩
    obtain ⟨ts, c₁, hss, htakes, hstops⟩ := program_takes c
    rw [heq] at hss hstops
    obtain ⟨last, hrest, hlast⟩ := (h.statements hss htakes).tokens_atEnd hstops.finished
    exact ⟨ts, last, by rw [htakes.tokens, hrest], hlast, hss⟩
  · rintro ⟨body, last, hbody, hlast, hss⟩
    obtain ⟨c₁, htakes, hrest⟩ := exists_takes hbody
    have hend : c₁.AtEnd := by
      intro t hfront
      rw [front?_settle, hrest] at hfront
      cases hfront
      exact hlast
    refine ⟨c₁.settle, ?_⟩
    rw [program_of_statements hss htakes, program_atEnd hend, List.append_nil]

end Cursor

/-- A source parses to statements exactly if the grammar derives a program of
them from its tokens, and every other source is rejected at a token. Each
statement on the way, wherever it is parsed, takes exactly its own tokens:
the last event passed is its semicolon or closing brace. -/
theorem program_parses_grammar (source : String) :
    (∀ ss, (∃ c, (Cursor.ofSource source).program = (ss, none, c))
        ↔ Program (tokenize source) ss)
      ∧ ((∀ ss, ¬ Program (tokenize source) ss) →
          ∃ ss fault t c,
            (Cursor.ofSource source).program = (ss, some (.rejected fault (some t)), c))
      ∧ (∀ (c c' : Cursor) (n : Node), c.statement = (.ok n, c') →
          ∃ passed t, c.pending = passed ++ .token t :: c'.pending
            ∧ c'.reported = c.reported ++ errorsOf passed
            ∧ Statement (tokensOf passed ++ [t]) n
            ∧ (t.kind = .semicolon ∨ t.kind = .rightBrace)) := by
  have hsourced := Cursor.sourced_ofSource source
  refine ⟨Cursor.program_eq_iff hsourced, ?_, ?_⟩
  · intro hnone
    obtain ⟨ts, c, hss, htakes, hstops⟩ := (Cursor.ofSource source).program_takes
    rcases hprogram : (Cursor.ofSource source).program with ⟨ss, _ | failure, c'⟩
    · exact absurd ((Cursor.program_eq_iff hsourced ss).1 ⟨c', hprogram⟩) (hnone ss)
    · rw [hprogram] at hss hstops
      obtain ⟨fault, t, rfl⟩ := hstops.rejected (hsourced.statements hss htakes)
      exact ⟨ss, fault, t, c', rfl⟩
  · intro c c' n h
    obtain ⟨ts, hs, htakes⟩ := Cursor.takes_of_statement h
    obtain ⟨us, z, rfl, hz⟩ := Cursor.last_of_statement hs
    obtain ⟨passed, hc, rfl, hreported⟩ := htakes.last_event
    exact ⟨passed, z, hc, hreported, hs, hz⟩

/-- A source of two statements has a program, of which the first statement
ends at its semicolon; without the second semicolon it has none. -/
theorem program_of_sources :
    let fine := "var a; print a;"
    let open' := "var a; print a"
    (∃ ss, Program (tokenize fine) ss)
      ∧ (∃ n c passed t, (Cursor.ofSource fine).statement = (.ok n, c)
          ∧ (Cursor.ofSource fine).pending = passed ++ .token t :: c.pending
          ∧ Statement (tokensOf passed ++ [t]) n)
      ∧ (∀ ss, ¬ Program (tokenize open') ss)
      ∧ ∃ ss fault t c,
          (Cursor.ofSource open').program = (ss, some (.rejected fault (some t)), c) := by
  intro fine open'
  have hfine : (Cursor.ofSource fine).program.2.1 = none := by decide +kernel
  have hopen : (Cursor.ofSource open').program.2.1 ≠ none := by decide +kernel
  have hfirst : (Cursor.ofSource fine).statement.1.isOk = true := by decide +kernel
  obtain ⟨hparses, -, htakes⟩ := program_parses_grammar fine
  obtain ⟨hparses', hrejects, -⟩ := program_parses_grammar open'
  have hnone : ∀ ss, ¬ Program (tokenize open') ss := by
    intro ss hss
    obtain ⟨c, hc⟩ := (hparses' ss).2 hss
    exact hopen (by rw [hc])
  refine ⟨⟨_, (hparses _).1 ⟨_, Prod.ext rfl (Prod.ext hfine rfl)⟩⟩, ?_, hnone, hrejects hnone⟩
  rcases hstatement : (Cursor.ofSource fine).statement with ⟨failure | n, c⟩
  · rw [hstatement] at hfirst
    cases hfirst
  · obtain ⟨passed, t, hpending, -, hs, -⟩ := htakes _ c n hstatement
    exact ⟨n, c, passed, t, rfl, hpending, hs⟩

end Lox

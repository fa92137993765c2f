/-
Parsing an expression is deriving it.

The yard reads events, tokens with lexical errors between them. Errors only
go on record, so a run over events is a run over their tokens that stops at
the first semicolon or end token (`run_append`, `run_eq_ok`). With the yard
as an exact parser of the grammar this gives the rule that the rest of the
library uses: parsing an expression succeeds exactly when the tokens before
the next terminator derive one, and then it has passed those tokens and no
more (`expression_eq_ok_iff`).
-/
import Lox.Proofs.Cursor
import Lox.Proofs.Numeral
import Lox.Proofs.Yard

namespace Lox

open Grammar (Level Derives Expression)

-- =================================================== runs over the events

namespace Yard

/-- Before a terminator, a run feeds the tokens and records the errors. -/
theorem run_append {y y' : Yard} {before : List Event} (reported : List LexError)
    (after : List Event) (hends : ∀ t ∈ tokensOf before, t.kind.endsExpression = false)
    (hfeed : y.feedAll (tokensOf before) = .ok y') :
    y.run reported (before ++ after) = y'.run (reported ++ errorsOf before) after := by
  induction before generalizing y reported with
  | nil =>
      cases hfeed
      simp
  | cons event before ih =>
      cases event with
      | error e =>
          rw [List.cons_append, run, ih _ hends hfeed]
          simp
      | token t =>
          have ht := hends t (List.mem_cons_self ..)
          rw [tokensOf_token, feedAll] at hfeed
          rw [List.cons_append, run, if_neg (by rw [ht]; decide)]
          split at hfeed
          · next z hz =>
              simp only [hz]
              exact ih _ (fun u hu => hends u (List.mem_cons_of_mem _ hu)) hfeed
          · cases hfeed

/-- A token that cannot be fed ends a run with that failure. -/
theorem run_error {y : Yard} {failure : ParseFailure} {before : List Event}
    (reported : List LexError) (after : List Event)
    (hends : ∀ t ∈ tokensOf before, t.kind.endsExpression = false)
    (hfeed : y.feedAll (tokensOf before) = .error failure) :
    (y.run reported (before ++ after)).1 = .error failure := by
  induction before generalizing y reported with
  | nil => cases hfeed
  | cons event before ih =>
      cases event with
      | error e =>
          rw [List.cons_append, run]
          exact ih _ hends hfeed
      | token t =>
          have ht := hends t (List.mem_cons_self ..)
          rw [tokensOf_token, feedAll] at hfeed
          rw [List.cons_append, run, if_neg (by rw [ht]; decide)]
          split at hfeed
          · next z hz =>
              simp only [hz]
              exact ih _ (fun u hu => hends u (List.mem_cons_of_mem _ hu)) hfeed
          · next f hf =>
              cases hfeed
              simp only [hf]

/-- A run that succeeds has stopped at a terminator, fed all tokens before
it, and built the tree there. -/
theorem run_eq_ok {y : Yard} {reported : List LexError} {events : List Event} {e : Node}
    {c : Cursor} (h : y.run reported events = (.ok e, c)) :
    ∃ before z after y', events = before ++ .token z :: after ∧ z.kind.endsExpression = true
      ∧ y.feedAll (tokensOf before) = .ok y' ∧ y'.tree = .ok e
      ∧ c = ⟨.token z :: after, reported ++ errorsOf before⟩ := by
  fun_induction run y reported events with
  | case1 => cases h
  | case2 y reported err rest ih =>
      obtain ⟨before, z, after, y', rfl, hz, hfeed, htree, rfl⟩ := ih h
      exact ⟨.error err :: before, z, after, y', rfl, hz, hfeed, htree, by simp⟩
  | case3 y reported z rest hz =>
      injection h with hfinish hc
      unfold finish at hfinish
      split at hfinish
      · next node htree =>
          cases hfinish
          exact ⟨[], z, rest, y, rfl, hz, rfl, htree, by simp [← hc]⟩
      · cases hfinish
  | case4 => cases h
  | case5 y reported t rest hends y' hfeed ih =>
      obtain ⟨before, z, after, y'', rfl, hz, hfeedAll, htree, rfl⟩ := ih h
      refine ⟨.token t :: before, z, after, y'', rfl, hz, ?_, htree, rfl⟩
      rw [tokensOf_token, feedAll]
      simp only [hfeed]
      exact hfeedAll

end Yard

-- ======================================================= one expression

/-- No token of an expression ends an expression. -/
theorem endsExpression_of_derives {l : Level} {ts : List Token} {e : Node} (h : Derives l ts e) :
    ∀ t ∈ ts, t.kind.endsExpression = false := by
  induction h with
  | assignment hx heq _ ih =>
      rw [List.forall_mem_cons, List.forall_mem_cons]
      exact ⟨by rw [hx]; rfl, by rw [heq]; rfl, ih⟩
  | @binary l op t us vs left right hop _ _ ihl ihr =>
      rw [List.forall_mem_append, List.forall_mem_cons]
      refine ⟨ihl, ?_, ihr⟩
      generalize t.kind = k at hop
      cases k <;> first | rfl | cases hop
  | @unary op t ts operand hop _ ih =>
      rw [List.forall_mem_cons]
      refine ⟨?_, ih⟩
      generalize t.kind = k at hop
      cases k <;> first | rfl | cases hop
  | @literal t v hv =>
      rw [List.forall_mem_singleton]
      unfold Grammar.literal? at hv
      generalize t.kind = k at hv
      cases k <;> first | rfl | cases hv
  | name hx =>
      rw [List.forall_mem_singleton, hx]
      rfl
  | group hl hr _ ih =>
      rw [List.forall_mem_cons, List.forall_mem_append, List.forall_mem_singleton]
      exact ⟨by rw [hl]; rfl, ih, by rw [hr]; rfl⟩
  | tighter _ ih => exact ih

/-- Parsing an expression succeeds exactly if the tokens before the next
terminator derive one. It then stands at the terminator, with the lexical
errors before it on record. -/
theorem expression_eq_ok_iff {y : Yard} {c c' : Cursor} {e : Node} :
    y.expression c = (.ok e, c')
      ↔ ∃ before z after, c.pending = before ++ .token z :: after ∧ z.kind.endsExpression = true
          ∧ Expression (tokensOf before) e
          ∧ c' = ⟨.token z :: after, c.reported ++ errorsOf before⟩ := by
  constructor
  · intro h
    obtain ⟨before, z, after, y', hpending, hz, hfeed, htree, hc⟩ := Yard.run_eq_ok h
    have hreads : y'.Reads (tokensOf before) := (Yard.reads_restart y).feedAll hfeed
    exact ⟨before, z, after, hpending, hz, hreads.tree htree, hc⟩
  · rintro ⟨before, z, after, hpending, hz, he, rfl⟩
    obtain ⟨y', hfeed, htree⟩ := feedAll_of_derives he y
    unfold Yard.expression
    rw [hpending, Yard.run_append _ _ (endsExpression_of_derives he) hfeed, Yard.run, if_pos hz,
      Yard.finish, htree]

-- ============================================================== failures

/-- The grammar refuses an operand by the token itself, unless it is a number
token whose text is no number. -/
theorem operand_error {t : Token} {failure : ParseFailure} (h : Yard.operand t = .error failure)
    (hnum : t.kind = .number → IsNumeral t.lexeme) :
    ∃ fault, failure = .rejected fault (some t) := by
  unfold Yard.operand at h
  split at h
  case h_1 hk =>
    obtain ⟨x, hx⟩ := Double.ofText?_of_isNumeral (hnum hk)
    simp only [hx] at h
    cases h
  case h_7 =>
    cases h
    exact ⟨_, rfl⟩
  all_goals cases h

/-- A yard that fails to take a token objects to it. -/
theorem feed_error {y : Yard} {t : Token} {failure : ParseFailure} (h : y.feed t = .error failure)
    (hnum : t.kind = .number → IsNumeral t.lexeme) :
    ∃ fault, failure = .rejected fault (some t) := by
  unfold Yard.feed at h
  split at h
  · unfold Yard.feedOperand at h
    split at h
    · cases h
    · split at h
      · cases h
      · next f hf =>
          cases h
          exact operand_error hf hnum
  · unfold Yard.feedOperator at h
    split at h
    · split at h
      · cases h
      · cases h
        exact ⟨_, rfl⟩
    · split at h
      · cases h
      · cases h
        exact ⟨_, rfl⟩

/-- If one of several tokens is not taken, the objection is to one of them. -/
theorem feedAll_error {y : Yard} {ts : List Token} {failure : ParseFailure}
    (h : y.feedAll ts = .error failure)
    (hnum : ∀ t ∈ ts, t.kind = .number → IsNumeral t.lexeme) :
    ∃ fault, ∃ t ∈ ts, failure = .rejected fault (some t) := by
  induction ts generalizing y with
  | nil => cases h
  | cons t ts ih =>
      rw [List.forall_mem_cons] at hnum
      rw [Yard.feedAll] at h
      split at h
      · obtain ⟨fault, u, hu, hf⟩ := ih h hnum.2
        exact ⟨fault, u, List.mem_cons_of_mem _ hu, hf⟩
      · next f hf =>
          cases h
          obtain ⟨fault, rfl⟩ := feed_error hf hnum.1
          exact ⟨fault, t, List.mem_cons_self .., rfl⟩

/-- Parsing an expression fails only by an objection of the grammar, to one
of the tokens up to the terminator. -/
theorem expression_error {y : Yard} {c : Cursor} {ts rest : List Token} {z : Token}
    {failure : ParseFailure} (hends : ∀ t ∈ ts, t.kind.endsExpression = false)
    (hnum : ∀ t ∈ ts, t.kind = .number → IsNumeral t.lexeme)
    (hz : z.kind.endsExpression = true) (hc : tokensOf c.pending = ts ++ z :: rest)
    (h : (y.expression c).1 = .error failure) :
    ∃ fault, ∃ t ∈ ts ++ [z], failure = .rejected fault (some t) := by
  obtain ⟨before, after, hpending, rfl, -⟩ := exists_events_of_tokensOf hc
  unfold Yard.expression at h
  rw [hpending] at h
  cases hfeed : y.restart.feedAll (tokensOf before) with
  | error f =>
      rw [Yard.run_error _ _ hends hfeed] at h
      cases h
      obtain ⟨fault, t, ht, hf⟩ := feedAll_error hfeed hnum
      exact ⟨fault, t, List.mem_append_left _ ht, hf⟩
  | ok y' =>
      rw [Yard.run_append _ _ hends hfeed, Yard.run, if_pos hz] at h
      simp only [Yard.finish] at h
      split at h
      · cases h
      · next fault _ =>
          cases h
          exact ⟨fault, z, List.mem_append_right _ (List.mem_singleton.2 rfl), rfl⟩

-- ============================================================ the result

/-- An expression ends at a semicolon or at the end. -/
theorem endsExpression_iff {k : Kind} : k.endsExpression = true ↔ k = .semicolon ∨ k = .eof := by
  simp [Kind.endsExpression]

/-- There is one first terminator. -/
theorem first_terminator_unique {us vs us' vs' : List Token} {z z' : Token}
    (hus : ∀ t ∈ us, t.kind.endsExpression = false) (hz : z.kind.endsExpression = true)
    (hus' : ∀ t ∈ us', t.kind.endsExpression = false) (hz' : z'.kind.endsExpression = true)
    (h : us ++ z :: vs = us' ++ z' :: vs') : us = us' ∧ z = z' ∧ vs = vs' := by
  induction us generalizing us' with
  | nil =>
      cases us' with
      | nil =>
          injection h with h₁ h₂
          exact ⟨rfl, h₁, h₂⟩
      | cons u us' =>
          injection h with h₁ _
          rw [h₁, hus' u (List.mem_cons_self ..)] at hz
          cases hz
  | cons t us ih =>
      cases us' with
      | nil =>
          injection h with h₁ _
          rw [← h₁, hus t (List.mem_cons_self ..)] at hz'
          cases hz'
      | cons u us' =>
          injection h with h₁ h₂
          obtain ⟨rfl, hzz, hvs⟩ := ih (fun x hx => hus x (List.mem_cons_of_mem _ hx))
            (fun x hx => hus' x (List.mem_cons_of_mem _ hx)) h₂
          exact ⟨by rw [h₁], hzz, hvs⟩

/-- Tokens up to a terminator parse as an expression exactly if the grammar
derives one from them, and to that tree; otherwise the grammar objects to
one of them. A parse that succeeds leaves the terminator as the next token.
What an earlier parse left in the yard does not matter. -/
theorem expression_parses_grammar (y : Yard) (c : Cursor) {ts rest : List Token} {z : Token}
    (hts : ∀ t ∈ ts, t.kind ≠ .semicolon ∧ t.kind ≠ .eof)
    (hnum : ∀ t ∈ ts, t.kind = .number → IsNumeral t.lexeme)
    (hz : z.kind = .semicolon ∨ z.kind = .eof)
    (hc : tokensOf c.pending = ts ++ z :: rest) :
    (∀ e, (y.expression c).1 = .ok e ↔ Expression ts e)
      ∧ ((∀ e, ¬ Expression ts e) →
          ∃ fault t, (y.expression c).1 = .error (.rejected fault (some t)))
      ∧ (∀ e, (y.expression c).1 = .ok e →
          tokensOf (y.expression c).2.pending = z :: rest
            ∧ ((y.expression c).2.look).1 = some z) := by
  have hends : ∀ t ∈ ts, t.kind.endsExpression = false := by
    intro t ht
    have := hts t ht
    rw [← Bool.not_eq_true, endsExpression_iff]
    rintro (h | h)
    · exact this.1 h
    · exact this.2 h
  have hz' := endsExpression_iff.2 hz
  -- a successful parse has stopped at `z`, since that is the first terminator
  have hok : ∀ e, (y.expression c).1 = .ok e →
      Expression ts e ∧ ∃ after reported, (y.expression c).2 = ⟨.token z :: after, reported⟩
        ∧ tokensOf after = rest := by
    intro e he
    obtain ⟨before, z', after, hpending, hz'', hexp, hcur⟩ :=
      expression_eq_ok_iff.1 (Prod.ext he rfl : y.expression c = (.ok e, (y.expression c).2))
    rw [hpending, tokensOf_append, tokensOf_token] at hc
    obtain ⟨rfl, rfl, rfl⟩ :=
      first_terminator_unique (endsExpression_of_derives hexp) hz'' hends hz' hc
    exact ⟨hexp, after, _, hcur, rfl⟩
  refine ⟨fun e => ⟨fun he => (hok e he).1, fun hexp => ?_⟩, fun hnone => ?_, fun e he => ?_⟩
  · obtain ⟨before, after, hpending, rfl, -⟩ := exists_events_of_tokensOf hc
    rw [expression_eq_ok_iff.2 ⟨before, z, after, hpending, hz', hexp, rfl⟩]
  · cases hr : (y.expression c).1 with
    | ok e => exact absurd (hok e hr).1 (hnone e)
    | error failure =>
        obtain ⟨fault, t, -, rfl⟩ := expression_error hends hnum hz' hc hr
        exact ⟨fault, t, rfl⟩
  · obtain ⟨-, after, reported, hcur, hafter⟩ := hok e he
    rw [hcur]
    exact ⟨by rw [tokensOf_token, hafter], rfl⟩

/-- The tokens of `a = -1 + b;` in a yard that a failed parse left full. -/
theorem expression_parses_negated_sum :
    let ts : List Token := [⟨.identifier, "a", none, 0, 1, 1⟩, ⟨.equal, "=", none, 2, 3, 1⟩,
      ⟨.minus, "-", none, 4, 5, 1⟩, ⟨.number, "1", some "1.0", 5, 6, 1⟩,
      ⟨.plus, "+", none, 7, 8, 1⟩, ⟨.identifier, "b", none, 9, 10, 1⟩]
    let z : Token := ⟨.semicolon, ";", none, 10, 11, 1⟩
    let y : Yard := ⟨[.assign, .unary .group], [.operator none], false⟩
    let e : Node := .assignment "a" (.binary (.binary .plus)
      (.unary (.unary .negative) (.literal (.real ⟨0x3ff0000000000000⟩))) (.variable "b"))
    (∀ t ∈ ts, t.kind ≠ .semicolon ∧ t.kind ≠ .eof)
      ∧ (∀ t ∈ ts, t.kind = .number → IsNumeral t.lexeme)
      ∧ (z.kind = .semicolon ∨ z.kind = .eof)
      ∧ tokensOf (Cursor.ofTokens (ts ++ [z])).pending = ts ++ [z]
      ∧ (y.expression (Cursor.ofTokens (ts ++ [z]))).1 = .ok e
      ∧ ((y.expression (Cursor.ofTokens (ts ++ [z]))).2.look).1 = some z := by
  intro ts z y e
  have hts : ∀ t ∈ ts, t.kind ≠ .semicolon ∧ t.kind ≠ .eof := by decide
  have hnum : ∀ t ∈ ts, t.kind = .number → IsNumeral t.lexeme := by
    intro t ht hk
    have hlexeme : t.lexeme = "1" := by
      revert t
      decide
    rw [hlexeme]
    exact ⟨['1'], [], by decide, by decide, by decide, .inl rfl⟩
  have hz : z.kind = .semicolon ∨ z.kind = .eof := .inl rfl
  have hc : tokensOf (Cursor.ofTokens (ts ++ [z])).pending = ts ++ [z] := rfl
  have hone : Derives .prefixed [⟨.number, "1", some "1.0", 5, 6, 1⟩]
      (.literal (.real ⟨0x3ff0000000000000⟩)) :=
    .tighter (.literal (by decide +kernel))
  have hsum : Derives .sum (ts.drop 2) (.binary (.binary .plus)
      (.unary (.unary .negative) (.literal (.real ⟨0x3ff0000000000000⟩))) (.variable "b")) :=
    .binary (t := ⟨.plus, "+", none, 7, 8, 1⟩) rfl (.tighter (.tighter (.unary rfl hone)))
      (.tighter (.tighter (.name rfl)))
  have hderives : Expression ts e :=
    .assignment rfl rfl (.tighter (.tighter (.tighter (.tighter (.tighter hsum)))))
  have h := expression_parses_grammar y _ hts hnum hz hc
  have hparse := (h.1 e).2 hderives
  exact ⟨hts, hnum, hz, hc, hparse, (h.2.2 e hparse).2⟩

end Lox

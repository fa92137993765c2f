/-
What a reader takes from a cursor.

`c.Takes ts c'` says that the tokens `ts` are taken from `c` one by one,
which leads to `c'`. Taking a token puts the lexical errors before it on
record and leaves those behind it alone, so the relation pins down the whole
cursor: `c'` stands right behind the last of the tokens, and has looked at
nothing further (`Takes.events`, `Takes.unique`). Statements about where a
parser stops are made in these terms.
-/
import Lox.Cursor

namespace Lox

-- ================================================================ events

/-- Events that are all tokens have these tokens. -/
@[simp]
theorem tokensOf_map_token (ts : List Token) : tokensOf (ts.map .token) = ts := by
  induction ts with
  | nil => rfl
  | cons t ts ih => rw [List.map_cons, tokensOf_token, ih]

@[simp]
theorem errorsOf_map_token (ts : List Token) : errorsOf (ts.map .token) = [] := by
  induction ts with
  | nil => rfl
  | cons t ts ih => rw [List.map_cons, errorsOf_token, ih]

/-- A token among the tokens of some events is one of the events; what comes
before and after it is before and after it there. -/
theorem exists_events_of_tokensOf {events : List Event} {us vs : List Token} {t : Token}
    (h : tokensOf events = us ++ t :: vs) :
    ∃ before after, events = before ++ .token t :: after ∧ tokensOf before = us
      ∧ tokensOf after = vs := by
  induction events generalizing us with
  | nil => simp at h
  | cons event events ih =>
      cases event with
      | error e =>
          obtain ⟨before, after, rfl, hb, ha⟩ := ih h
          exact ⟨.error e :: before, after, rfl, hb, ha⟩
      | token t' =>
          cases us with
          | nil =>
              cases h
              exact ⟨[], events, rfl, rfl, rfl⟩
          | cons u us =>
              rw [tokensOf_token, List.cons_append] at h
              injection h with h₁ h₂
              obtain ⟨before, after, rfl, hb, ha⟩ := ih h₂
              exact ⟨.token t' :: before, after, rfl, by rw [tokensOf_token, h₁, hb], ha⟩

/-- The first of the tokens comes after errors only. -/
theorem exists_skipped_of_tokensOf {events : List Event} {ts : List Token} {t : Token}
    (h : tokensOf events = t :: ts) :
    ∃ skipped rest, events = skipped ++ .token t :: rest ∧ tokensOf skipped = []
      ∧ tokensOf rest = ts :=
  exists_events_of_tokensOf (by rw [h, List.nil_append])

namespace Cursor

-- ============================================================== settling

/-- Settling records the errors before the next token, and only them. -/
theorem settleFrom_append {skipped : List Event} {t : Token} (rest : List Event)
    (h : tokensOf skipped = []) (reported : List LexError) :
    settleFrom reported (skipped ++ .token t :: rest)
      = ⟨.token t :: rest, reported ++ errorsOf skipped⟩ := by
  induction skipped generalizing reported with
  | nil => simp [settleFrom]
  | cons event skipped ih =>
      cases event with
      | error e =>
          rw [List.cons_append, settleFrom, ih h]
          simp
      | token t' => cases h

/-- Settling passes over errors only, so no token is lost. -/
theorem tokensOf_settleFrom (reported : List LexError) (events : List Event) :
    tokensOf (settleFrom reported events).pending = tokensOf events := by
  fun_induction settleFrom reported events with
  | case1 reported e rest ih => exact ih
  | case2 => rfl

/-- A settled cursor has the same tokens left. -/
@[simp]
theorem tokensOf_settle (c : Cursor) : tokensOf c.settle.pending = tokensOf c.pending :=
  tokensOf_settleFrom c.reported c.pending

/-- The next token is the first of the tokens that are left. -/
theorem front?_settle (c : Cursor) : c.settle.front? = (tokensOf c.pending).head? := by
  unfold settle
  fun_induction settleFrom c.reported c.pending with
  | case1 reported e rest ih => exact ih
  | case2 reported pending hp =>
      cases pending with
      | nil => rfl
      | cons event rest =>
          cases event with
          | token t => rfl
          | error e => exact absurd rfl (hp e rest)

/-- The read of a token passes over the errors before it, and reports them. -/
theorem next_of_pending {c : Cursor} {skipped rest : List Event} {t : Token}
    (hc : c.pending = skipped ++ .token t :: rest) (h : tokensOf skipped = []) :
    c.next = (some t, ⟨rest, c.reported ++ errorsOf skipped⟩) := by
  unfold next settle
  rw [hc, settleFrom_append rest h]

/-- Taking a token, in terms of the events. -/
theorem next_eq_some_iff {c c' : Cursor} {t : Token} :
    c.next = (some t, c')
      ↔ ∃ skipped, tokensOf skipped = [] ∧ c.pending = skipped ++ .token t :: c'.pending
          ∧ c'.reported = c.reported ++ errorsOf skipped := by
  constructor
  · intro h
    cases htokens : tokensOf c.pending with
    | nil =>
        have hfront := front?_settle c
        rw [htokens] at hfront
        have hfst := fst_next c
        rw [h] at hfst
        exact absurd (hfst.trans hfront) (by simp)
    | cons u us =>
        obtain ⟨skipped, rest, hc, hskipped, -⟩ := exists_skipped_of_tokensOf htokens
        rw [next_of_pending hc hskipped] at h
        cases h
        exact ⟨skipped, hskipped, hc, rfl⟩
  · rintro ⟨skipped, hskipped, hc, hr⟩
    rw [next_of_pending hc hskipped, ← hr]

/-- Settling first changes nothing about what is taken. -/
@[simp]
theorem next_settle (c : Cursor) : c.settle.next = c.next :=
  next_look c

/-- The token in front is the one that is read. -/
theorem next_of_front {c : Cursor} {t : Token} (h : c.settle.front? = some t) :
    c.next = (some t, (c.next).2) :=
  Prod.ext ((fst_next c).trans h) rfl

/-- What is read was in front. -/
theorem front_of_next {c c' : Cursor} {t : Token} (h : c.next = (some t, c')) :
    c.settle.front? = some t := by
  have hfst := fst_next c
  rw [h] at hfst
  exact hfst.symm

/-- Without a token in front, a read only settles. -/
theorem next_of_front_none {c : Cursor} (h : c.settle.front? = none) :
    c.next = (none, c.settle) := by
  unfold next
  unfold front? at h
  split
  · next t rest hp =>
      rw [hp] at h
      cases h
  · rfl

-- ================================================================ taking

/-- `c.Takes ts c'`: taking the tokens `ts` from `c` leads to `c'`. -/
inductive Takes : Cursor → List Token → Cursor → Prop where
  | nil (c : Cursor) : Takes c [] c
  | cons {c c' c'' : Cursor} {t : Token} {ts : List Token} :
      c.next = (some t, c') → Takes c' ts c'' → Takes c (t :: ts) c''

/-- To read a token is to take it. -/
theorem Takes.one {c c' : Cursor} {t : Token} (h : c.next = (some t, c')) : c.Takes [t] c' :=
  .cons h (.nil c')

theorem Takes.trans {c c' c'' : Cursor} {us vs : List Token} (h : c.Takes us c')
    (h' : c'.Takes vs c'') : c.Takes (us ++ vs) c'' := by
  induction h with
  | nil => exact h'
  | cons hnext _ ih => exact .cons hnext (ih h')

/-- A cursor and the tokens to take decide where the reader ends. -/
theorem Takes.unique {c c₁ c₂ : Cursor} {ts : List Token} (h₁ : c.Takes ts c₁)
    (h₂ : c.Takes ts c₂) : c₁ = c₂ := by
  induction h₁ with
  | nil => cases h₂; rfl
  | cons hnext _ ih =>
      cases h₂ with
      | cons hnext' h₂ =>
          rw [hnext] at hnext'
          cases hnext'
          exact ih h₂

/-- Taking tokens settles first anyway. -/
theorem takes_settle {c c' : Cursor} {t : Token} {ts : List Token} :
    c.settle.Takes (t :: ts) c' ↔ c.Takes (t :: ts) c' := by
  constructor <;> rintro (_ | ⟨hnext, h⟩)
  · exact .cons (by rwa [next_settle] at hnext) h
  · exact .cons (by rwa [next_settle]) h

/-- The front of a cursor from which tokens are taken. -/
theorem front_of_takes {c c' : Cursor} {t : Token} {ts : List Token} (h : c.Takes (t :: ts) c') :
    c.settle.front? = some t := by
  cases h with
  | cons hnext _ => exact front_of_next hnext

/-- So what a settled cursor takes, the cursor takes. -/
theorem takes_of_settle {c c' : Cursor} {ts : List Token} (hne : ts ≠ [])
    (h : c.settle.Takes ts c') : c.Takes ts c' := by
  obtain ⟨t, rest, rfl⟩ := List.exists_cons_of_ne_nil hne
  exact takes_settle.1 h

/-- Taking tokens in a row passes through the cursor between them. -/
theorem Takes.append_inv {c c'' : Cursor} {us vs : List Token} (h : c.Takes (us ++ vs) c'') :
    ∃ c', c.Takes us c' ∧ c'.Takes vs c'' := by
  induction us generalizing c with
  | nil => exact ⟨c, .nil c, h⟩
  | cons t us ih =>
      cases h with
      | cons hnext h =>
          obtain ⟨c', hus, hvs⟩ := ih h
          exact ⟨c', .cons hnext hus, hvs⟩

/-- Taking tokens passes events with those tokens and records the errors
among them. -/
theorem Takes.events {c c' : Cursor} {ts : List Token} (h : c.Takes ts c') :
    ∃ passed, c.pending = passed ++ c'.pending ∧ tokensOf passed = ts
      ∧ c'.reported = c.reported ++ errorsOf passed := by
  induction h with
  | nil => exact ⟨[], rfl, rfl, by simp⟩
  | @cons c c₁ c' t ts hnext _ ih =>
      obtain ⟨skipped, hskipped, hc, hr⟩ := next_eq_some_iff.1 hnext
      obtain ⟨passed, hc₁, htokens, hr'⟩ := ih
      refine ⟨skipped ++ .token t :: passed, ?_, ?_, ?_⟩
      · rw [hc, hc₁, List.append_assoc, List.cons_append]
      · rw [tokensOf_append, hskipped, tokensOf_token, htokens]
        rfl
      · rw [hr', hr, errorsOf_append, errorsOf_token, List.append_assoc]

/-- The last event passed is the last token taken. -/
theorem Takes.last_event {c c' : Cursor} {us : List Token} {z : Token}
    (h : c.Takes (us ++ [z]) c') :
    ∃ passed, c.pending = passed ++ .token z :: c'.pending ∧ tokensOf passed = us
      ∧ c'.reported = c.reported ++ errorsOf passed := by
  obtain ⟨c₁, hus, hz⟩ := h.append_inv
  obtain ⟨⟩ | ⟨hnext, ⟨⟩⟩ := hz
  obtain ⟨passed, hc, htokens, hr⟩ := hus.events
  obtain ⟨skipped, hskipped, hc₁, hr'⟩ := next_eq_some_iff.1 hnext
  refine ⟨passed ++ skipped, ?_, ?_, ?_⟩
  · rw [hc, hc₁, List.append_assoc]
  · rw [tokensOf_append, htokens, hskipped, List.append_nil]
  · rw [hr', hr, errorsOf_append, List.append_assoc]

/-- What was taken and what is left are what was left before. -/
theorem Takes.tokens {c c' : Cursor} {ts : List Token} (h : c.Takes ts c') :
    tokensOf c.pending = ts ++ tokensOf c'.pending := by
  obtain ⟨passed, hc, rfl, -⟩ := h.events
  rw [hc, tokensOf_append]

/-- The first tokens that are left can be taken. -/
theorem exists_takes {c : Cursor} {us vs : List Token} (h : tokensOf c.pending = us ++ vs) :
    ∃ c', c.Takes us c' ∧ tokensOf c'.pending = vs := by
  induction us generalizing c with
  | nil => exact ⟨c, .nil c, h⟩
  | cons t us ih =>
      obtain ⟨skipped, rest, hc, hskipped, hrest⟩ := exists_skipped_of_tokensOf h
      obtain ⟨c', hus, hvs⟩ := ih (c := ⟨rest, c.reported ++ errorsOf skipped⟩) hrest
      exact ⟨c', .cons (next_of_pending hc hskipped) hus, hvs⟩

/-- Passing events up to a token takes their tokens. -/
theorem takes_of_pending {c : Cursor} {passed rest : List Event} {t : Token}
    (hc : c.pending = passed ++ .token t :: rest) :
    c.Takes (tokensOf passed ++ [t]) ⟨rest, c.reported ++ errorsOf passed⟩ := by
  -- by induction over the tokens, since errors between them change no step
  generalize htokens : tokensOf passed = ts
  induction ts generalizing c passed with
  | nil => exact .one (next_of_pending hc htokens)
  | cons u us ih =>
      obtain ⟨skipped, passed', rfl, hskipped, hus⟩ := exists_skipped_of_tokensOf htokens
      have hc' : c.pending = skipped ++ .token u :: (passed' ++ .token t :: rest) := by
        rw [hc, List.append_assoc, List.cons_append]
      have h := ih (c := ⟨passed' ++ .token t :: rest, c.reported ++ errorsOf skipped⟩) rfl hus
      rw [errorsOf_append, errorsOf_token, ← List.append_assoc]
      exact .cons (next_of_pending hc' hskipped) h

end Cursor

end Lox

/-
A reader with lookahead reads a list.

# The scan under way

What a running scan has ahead of it (`RunningScan.ahead`) are events of its
source, and asking it for a token passes the errors before the token and the
token, no more (`RunningScan.next_eq_some`). So it is a cursor whose
pending events have not been scanned yet (`RunningScan.next_cursor`).

# The slot

A token in the slot is a pending token of the cursor. With that, each call of
a reader with lookahead is the same call of the cursor (`call_cursor`), and
each call of a cursor is the same call of the list of its tokens
(`callTokens_pending`). So a whole sequence of calls has the same answers in
all three (`answers_map`), which for a list are plain.

What the cursor does not show is how far the scan has gone: it has passed the
tokens taken, the one in the slot, and the errors before them
(`RunningScan.HasPassed`).
-/
import Lox.Lookahead
import Lox.Proofs.ByHand
import Lox.Proofs.Cursor

namespace Lox

-- ========================================================== running scans

namespace RunningScan

/-- What the scan has not read yet. -/
def ahead (r : RunningScan) : List Event :=
  if r.isOver then [] else r.scanner.events

/-- The scan as a cursor over what it has not read yet. -/
def cursor (r : RunningScan) : Cursor :=
  { pending := r.ahead, reported := r.reported }

/-- The next token of the scan is the next of the cursor. -/
theorem next_cursor (r : RunningScan) : r.cursor.next = (r.next.1, r.next.2.cursor) := by
  fun_induction RunningScan.next r with
  | case1 r hr =>
      have hahead : r.ahead = [] := if_pos hr
      rw [cursor, hahead]
      rfl
  | case2 r hr s hrest =>
      have hahead : r.ahead = [.token s.endToken] := by
        rw [ahead, if_neg hr, Scanner.events_of_end hrest]
      rw [cursor, hahead]
      rfl
  | case3 r hr s hrest t ht =>
      have hahead : r.ahead = .token t :: s.scanToken.2.events := by
        rw [ahead, if_neg hr, Scanner.events_of_scans (Scanner.scans_scanToken hrest), ht]
      rw [cursor, hahead, cursor, ahead, if_neg hr]
      rfl
  | case4 r hr s hrest e he ih =>
      have hahead : r.ahead = .error e :: s.scanToken.2.events := by
        rw [ahead, if_neg hr, Scanner.events_of_scans (Scanner.scans_scanToken hrest), he]
      rw [← ih, cursor, hahead]
      rfl

/-- Asking for a token passes the errors before it and the token. -/
theorem next_eq_some {r r' : RunningScan} {t : Token} (h : r.next = (some t, r')) :
    ∃ skipped, tokensOf skipped = [] ∧ r.ahead = skipped ++ .token t :: r'.ahead
      ∧ r'.reported = r.reported ++ errorsOf skipped := by
  have hcursor := r.next_cursor
  rw [h] at hcursor
  exact Cursor.next_eq_some_iff.1 hcursor

/-- A scan that is not over has a token ahead, the end token if no other. -/
theorem isSome_next (r : RunningScan) (h : r.isOver = false) : r.next.1.isSome = true := by
  fun_induction RunningScan.next r with
  | case1 r hr =>
      rw [h] at hr
      cases hr
  | case2 | case3 => rfl
  | case4 r hr s hrest e he ih => exact ih rfl

/-- A scan without a next token is over, and asking for one changes nothing. -/
theorem next_eq_none {r r' : RunningScan} (h : r.next = (none, r')) : r.isOver = true ∧ r' = r := by
  cases hover : r.isOver with
  | false =>
      have hsome := r.isSome_next hover
      rw [h] at hsome
      cases hsome
  | true =>
      rw [next, if_pos hover] at h
      cases h
      exact ⟨rfl, rfl⟩

/-- While a token is ahead, the scan is not over. -/
theorem isOver_of_lt {r : RunningScan} {k : Nat} (h : k < (tokensOf r.ahead).length) :
    r.isOver = false := by
  cases hover : r.isOver with
  | false => rfl
  | true =>
      have hahead : r.ahead = [] := if_pos hover
      rw [hahead] at h
      exact absurd h (Nat.not_lt_zero k)

end RunningScan

-- ============================================================== the slot

namespace Lookahead

/-- The reader as a cursor: what is in the slot is pending, and so is what has
not been scanned. -/
def cursor (l : Lookahead) : Cursor :=
  { pending := l.slot.toList.map .token ++ l.scan.ahead, reported := l.scan.reported }

end Lookahead

/-- A cursor that delivers a token has settled before it. -/
theorem Cursor.settle_of_next {c c' : Cursor} {t : Token} (h : c.next = (some t, c')) :
    c.settle = ⟨.token t :: c'.pending, c'.reported⟩ := by
  unfold next at h
  split at h
  · next hsettled =>
      cases h
      rw [← hsettled]
  · cases h

/-- A read without a token settles only. -/
theorem Cursor.settle_of_next_none {c c' : Cursor} (h : c.next = (none, c')) : c.settle = c' := by
  unfold next at h
  split at h
  · cases h
  · cases h
    rfl

namespace Lookahead

theorem look_cursor (l : Lookahead) : l.cursor.look = (l.look.1, l.look.2.cursor) := by
  obtain ⟨r, _ | t⟩ := l
  · have hcursor := r.next_cursor
    have hfront : r.cursor.look.1 = r.next.1 := by
      rw [← Cursor.fst_next, hcursor]
    have hsettle : r.cursor.settle = cursor ⟨r.next.2, r.next.1⟩ := by
      rcases hnext : r.next with ⟨_ | t, r'⟩
      · rw [hnext] at hcursor
        exact Cursor.settle_of_next_none hcursor
      · rw [hnext] at hcursor
        exact Cursor.settle_of_next hcursor
    exact Prod.ext hfront hsettle
  · rfl

theorem take_cursor (l : Lookahead) : l.cursor.next = (l.take.1, l.take.2.cursor) := by
  obtain ⟨r, _ | t⟩ := l
  · exact r.next_cursor
  · rfl

/-- A call of the reader is the same call of the cursor. -/
theorem call_cursor (l : Lookahead) (call : Call) :
    l.cursor.call call = ((l.call call).1, (l.call call).2.cursor) := by
  cases call with
  | peek => rw [Cursor.call, l.look_cursor]; rfl
  | advance => rw [Cursor.call, l.take_cursor]; rfl
  | hasNext => rw [Cursor.call, l.look_cursor]; rfl

end Lookahead

-- ====================================================== tokens as a reader

/-- A call of a cursor is the same call of the list of its tokens. -/
theorem Cursor.callTokens_pending (c : Cursor) (call : Call) :
    callTokens (tokensOf c.pending) call = ((c.call call).1, tokensOf (c.call call).2.pending) := by
  have hfront : c.look.1 = (tokensOf c.pending).head? := c.front?_settle
  have hlook : tokensOf c.look.2.pending = tokensOf c.pending := c.tokensOf_settle
  cases call with
  | peek => rw [callTokens, Cursor.call, hfront, hlook]
  | hasNext =>
      rw [callTokens, Cursor.call, hfront, hlook]
      cases tokensOf c.pending <;> rfl
  | advance =>
      rw [callTokens, Cursor.call, c.fst_next, hfront]
      rcases hnext : c.next with ⟨_ | t, c'⟩
      · have hfirst := c.fst_next
        rw [hnext, hfront] at hfirst
        rw [← c.settle_of_next_none hnext, tokensOf_settle, List.head?_eq_none_iff.1 hfirst.symm]
        rfl
      · obtain ⟨skipped, hskipped, hc, -⟩ := next_eq_some_iff.1 hnext
        rw [hc, tokensOf_append, hskipped, tokensOf_token]
        rfl

/-- Readers that answer one call alike, and go on as such, answer all calls
alike. -/
theorem answers_map {σ τ : Type} {step : σ → Call → Answer × σ} {step' : τ → Call → Answer × τ}
    {f : σ → τ} (h : ∀ s call, step' (f s) call = ((step s call).1, f (step s call).2)) (s : σ)
    (calls : List Call) :
    answers step' (f s) calls = ((answers step s calls).1, f (answers step s calls).2) := by
  induction calls generalizing s with
  | nil => rfl
  | cons call calls ih => rw [answers, h, ih]; rfl

/-- Calls of the reader are the same calls of the tokens that it has not handed
out. -/
theorem Lookahead.answers_callTokens (l : Lookahead) (calls : List Call) :
    answers callTokens (tokensOf l.cursor.pending) calls
      = ((answers call l calls).1, tokensOf (answers call l calls).2.cursor.pending) := by
  rw [answers_map Cursor.callTokens_pending, answers_map call_cursor]

/-- A list hands out its first tokens, as many as there are calls to advance. -/
theorem answers_callTokens (ts : List Token) (calls : List Call) :
    (answers callTokens ts calls).1.filterMap Answer.taken? = ts.take (calls.count .advance)
      ∧ (answers callTokens ts calls).2 = ts.drop (calls.count .advance) := by
  induction calls generalizing ts with
  | nil => exact ⟨(List.take_zero).symm, (List.drop_zero).symm⟩
  | cons call calls ih =>
      cases call with
      | peek => exact ih ts
      | hasNext => exact ih ts
      | advance =>
          obtain ⟨htaken, hleft⟩ := ih ts.tail
          rw [List.count_cons_self]
          cases ts with
          | nil =>
              rw [List.tail_nil, List.take_nil] at htaken
              rw [List.tail_nil, List.drop_nil] at hleft
              rw [List.take_nil, List.drop_nil]
              exact ⟨htaken, hleft⟩
          | cons t ts => exact ⟨congrArg (t :: ·) htaken, hleft⟩

/-- What a reader without tokens answers. -/
def Call.refused : Call → Answer
  | .peek => .looked none
  | .advance => .took none
  | .hasNext => .more false

theorem answers_nil (calls : List Call) :
    (answers callTokens [] calls).1 = calls.map Call.refused := by
  induction calls with
  | nil => rfl
  | cons call calls ih =>
      cases call <;> exact congrArg (_ :: ·) ih

-- ==================================================== how far scanning goes

/-- Of some events the scan has passed the given tokens and the errors before
them, and the errors it has on record are these. It stands behind the last of
the tokens. -/
def RunningScan.HasPassed (r : RunningScan) (events : List Event) (tokens : List Token) : Prop :=
  ∃ passed, events = passed ++ r.ahead ∧ tokensOf passed = tokens ∧ r.reported = errorsOf passed
    ∧ ∀ e ∈ passed.getLast?, ∃ t, e = .token t

/-- A scan that has not begun has passed nothing. -/
theorem RunningScan.hasPassed_ofSource (source : String) :
    (ofSource source).HasPassed (scan source) [] :=
  ⟨[], rfl, rfl, rfl, fun _ he => by cases he⟩

/-- Asking for a token passes that token. -/
theorem RunningScan.HasPassed.next {r : RunningScan} {events : List Event} {tokens : List Token}
    (h : r.HasPassed events tokens) : r.next.2.HasPassed events (tokens ++ r.next.1.toList) := by
  rcases hnext : r.next with ⟨_ | t, r'⟩
  · obtain ⟨-, rfl⟩ := r.next_eq_none hnext
    rwa [Option.toList_none, List.append_nil]
  · obtain ⟨passed, hevents, htokens, hreported, -⟩ := h
    obtain ⟨skipped, hskipped, hahead, hreported'⟩ := r.next_eq_some hnext
    refine ⟨passed ++ (skipped ++ [.token t]), ?_, ?_, ?_, ?_⟩
    · rw [hevents, hahead]
      simp
    · rw [tokensOf_append, tokensOf_append, htokens, hskipped]
      rfl
    · rw [hreported', hreported, errorsOf_append, errorsOf_append]
      simp
    · rw [← List.append_assoc, List.getLast?_concat]
      rintro e ⟨⟩
      exact ⟨t, rfl⟩

namespace Lookahead

/-- A call moves the scan by the token that it looks at or takes and that was
not in the slot. -/
theorem hasPassed_call {l : Lookahead} {events : List Event} {taken : List Token}
    (h : l.scan.HasPassed events (taken ++ l.slot.toList)) (call : Call) :
    (l.call call).2.scan.HasPassed events
      (taken ++ (l.call call).1.taken?.toList ++ (l.call call).2.slot.toList) := by
  have hlook : l.look.2.scan.HasPassed events (taken ++ l.look.2.slot.toList) := by
    obtain ⟨r, _ | t⟩ := l
    · rw [Option.toList_none, List.append_nil] at h
      exact h.next
    · exact h
  cases call with
  | peek | hasNext =>
      rw [Answer.taken?.eq_def]
      simpa [call] using hlook
  | advance =>
      obtain ⟨r, _ | t⟩ := l
      · rw [Option.toList_none, List.append_nil] at h
        simpa [call, take, Answer.taken?] using h.next
      · simpa [call, take, Answer.taken?] using h

/-- The scan has passed the tokens taken and the one in the slot, whatever the
calls were. -/
theorem hasPassed_answers {l : Lookahead} {events : List Event} {taken : List Token}
    (h : l.scan.HasPassed events (taken ++ l.slot.toList)) (calls : List Call) :
    (answers call l calls).2.scan.HasPassed events
      (taken ++ (answers call l calls).1.filterMap Answer.taken?
        ++ (answers call l calls).2.slot.toList) := by
  induction calls generalizing l taken with
  | nil => simpa [answers] using h
  | cons c calls ih =>
      have hlater := ih (hasPassed_call h c)
      rw [answers]
      cases htaken : (l.call c).1.taken? with
      | none => simpa [htaken] using hlater
      | some t => simpa [htaken] using hlater

end Lookahead

-- ================================================================ by hand

/-- By hand as under way, the next tokens are the first of those ahead, and
what has not been read is behind them. -/
theorem ManualScanner.exists_nextTokens {r : RunningScan} {m : ManualScanner} (h : m.Runs r)
    {k : Nat} (hk : k < (tokensOf r.ahead).length) :
    ∃ (placed : List Placed) (r' : RunningScan),
      (nextTokens k m).1 = placed.map (fun p => some (.ok p))
      ∧ placed.map Placed.absolute = ((tokensOf r.ahead).take k).map .token
      ∧ (nextTokens k m).2.Runs r' ∧ r'.isOver = false
      ∧ tokensOf r'.ahead = (tokensOf r.ahead).drop k := by
  induction k generalizing r m with
  | zero => exact ⟨[], r, rfl, rfl, h, RunningScan.isOver_of_lt hk, rfl⟩
  | succ k ih =>
      have hover := RunningScan.isOver_of_lt hk
      obtain ⟨errors, p, m', t, hfrom, hnext, hp, hruns⟩ := exists_tokenFrom r m h hover
      have hpulled : m.nextToken = (errors, some (.ok p), m') := by
        rw [nextToken, h.isOver, hover, if_neg Bool.false_ne_true, hfrom]
      obtain ⟨skipped, hskipped, hahead, -⟩ := r.next_eq_some (Prod.ext hnext rfl)
      have htokens : tokensOf r.ahead = t :: tokensOf r.next.2.ahead := by
        rw [hahead, tokensOf_append, hskipped, tokensOf_token]
        rfl
      rw [htokens, List.length_cons, Nat.add_lt_add_iff_right] at hk
      obtain ⟨placed, r', hplaced, habsolute, hruns', hover', hleft⟩ := ih hruns hk
      refine ⟨p :: placed, r', ?_, ?_, ?_, hover', ?_⟩
      · rw [nextTokens, hpulled, hplaced]
        rfl
      · rw [htokens, List.map_cons, hp, habsolute, List.take_succ_cons, List.map_cons]
      · rw [nextTokens, hpulled]
        exact hruns'
      · rw [htokens, List.drop_succ_cons, hleft]

/-- As long as the end token is not among them, some tokens, one by one, and a
scan of the rest are together those of the source. -/
theorem ManualScanner.exists_nextTokens_scanAll {source : String} {k : Nat}
    (hk : k < (tokenize source).length) :
    ∃ (placed events : List Placed) (m : ManualScanner),
      (nextTokens k (.ofSource source)).1 = placed.map (fun p => some (.ok p))
        ∧ (nextTokens k (.ofSource source)).2.scanAll = (events, none, m)
        ∧ placed.map Placed.absolute = ((tokenize source).take k).map .token
        ∧ tokensOf (events.map Placed.absolute) = (tokenize source).drop k := by
  obtain ⟨placed, r, hplaced, habsolute, hruns, hover, hrest⟩ :=
    exists_nextTokens (runs_ofSource source) hk
  obtain ⟨events, m, hall, hevents⟩ := exists_scanAll _ _ hruns.toIsAt
  refine ⟨placed, events, m, hplaced, hall, habsolute, ?_⟩
  rw [RunningScan.ahead, hover, if_neg Bool.false_ne_true] at hrest
  rw [hevents]
  exact hrest

-- ============================================================= the result

/-- The end token is the last of a text. -/
theorem le_of_mem_take {source : String} {n : Nat} {t : Token}
    (h : t ∈ (tokenize source).take n) (hkind : t.kind = .eof) :
    (tokenize source).length ≤ n := by
  obtain ⟨body, last, htokens, -, hbody⟩ := tokenize_eq source
  rw [htokens] at h ⊢
  refine Nat.le_of_not_lt fun hlt => ?_
  rw [List.length_append, List.length_singleton, Nat.lt_succ_iff] at hlt
  rw [List.take_append_of_le_length hlt] at h
  exact (hbody t (List.mem_of_mem_take h)).not_eof hkind

/-- A reader with lookahead reads a list. Whatever the calls, it answers as the
list of all tokens does, and as the cursor of the parsers does, with the same
errors on record. So the tokens taken are the first of the list; a look shows
the token that is taken next; and there is one as long as tokens are left. After
the end token it refuses everything. The scan has passed the tokens taken, the
one in the slot if there is one, and the errors before the last of these, and
no other is on record.

By hand it is the same: some tokens, one by one, and then all the rest are the
tokens of the source, as long as the end token is among the rest. -/
theorem lookahead_reads_list (source : String) (calls : List Call) :
    let tokens := tokenize source
    let n := calls.count .advance
    let run := answers Lookahead.call (.ofSource source) calls
    let cursor := answers Cursor.call (.ofSource source) calls
    run.1 = (answers callTokens tokens calls).1
      ∧ run.1 = cursor.1 ∧ run.2.scan.reported = cursor.2.reported
      ∧ run.1.filterMap Answer.taken? = tokens.take n
      ∧ (run.2.call .peek).1 = .looked tokens[n]?
      ∧ (run.2.call .advance).1 = .took tokens[n]?
      ∧ (run.2.call .hasNext).1 = .more (decide (n < tokens.length))
      ∧ ((∃ t ∈ run.1.filterMap Answer.taken?, t.kind = .eof) →
          ∀ more, (answers Lookahead.call run.2 more).1 = more.map Call.refused)
      ∧ run.2.scan.HasPassed (scan source) (tokens.take n ++ run.2.slot.toList)
      ∧ ∀ k < tokens.length, ∃ (placed events : List Placed) (m : ManualScanner),
          (ManualScanner.nextTokens k (.ofSource source)).1 = placed.map (fun p => some (.ok p))
            ∧ (ManualScanner.nextTokens k (.ofSource source)).2.scanAll = (events, none, m)
            ∧ placed.map Placed.absolute = (tokens.take k).map .token
            ∧ tokensOf (events.map Placed.absolute) = tokens.drop k := by
  intro tokens n run cursor
  have hcursor : cursor = (run.1, run.2.cursor) :=
    answers_map Lookahead.call_cursor (.ofSource source) calls
  have hlist : answers callTokens tokens calls = (run.1, tokensOf run.2.cursor.pending) :=
    Lookahead.answers_callTokens (.ofSource source) calls
  obtain ⟨htaken, hleft⟩ := answers_callTokens tokens calls
  rw [hlist] at htaken hleft
  -- later answers come from the tokens that are left
  have hmore (more : List Call) :
      (answers Lookahead.call run.2 more).1 = (answers callTokens (tokens.drop n) more).1 := by
    rw [← hleft, run.2.answers_callTokens]
  have hcall (call : Call) : (run.2.call call).1 = (callTokens (tokens.drop n) call).1 :=
    (List.cons.inj (hmore [call])).1
  refine ⟨by rw [hlist], by rw [hcursor], by rw [hcursor]; rfl, htaken, ?_, ?_, ?_, ?_, ?_,
    fun k hk => ManualScanner.exists_nextTokens_scanAll hk⟩
  · rw [hcall, callTokens, List.head?_drop]
  · rw [hcall, callTokens, List.head?_drop]
  · have hthere : (!(tokens.drop n).isEmpty) = decide (n < tokens.length) := by
      rw [Bool.eq_iff_iff]
      simp
    rw [hcall, callTokens, hthere]
  · rintro ⟨t, ht, hkind⟩ more
    rw [htaken] at ht
    rw [hmore, List.drop_eq_nil_of_le (le_of_mem_take ht hkind), answers_nil]
  · -- at the start nothing is taken and nothing is in the slot
    have hstart : (Lookahead.ofSource source).scan.HasPassed (scan source) ([] ++ []) :=
      RunningScan.hasPassed_ofSource source
    have hpassed := Lookahead.hasPassed_answers hstart calls
    rwa [List.nil_append, htaken] at hpassed

/-- The error between two tokens is on record once the second was asked for,
and behind the end token everything is refused. -/
theorem lookahead_reads_list_past_errors :
    let source := "1 @ 2"
    let calls : List Call := [.peek, .advance, .hasNext, .advance, .advance]
    let run := answers Lookahead.call (.ofSource source) calls
    (∃ t ∈ run.1.filterMap Answer.taken?, t.kind = .eof)
      ∧ run.1.filterMap Answer.taken? = tokenize source
      ∧ run.2.scan.reported = [⟨.unexpectedCharacter (some '@'), 2, 1⟩]
      ∧ (∀ more, (answers Lookahead.call run.2 more).1 = more.map Call.refused)
      ∧ 1 < (tokenize source).length
      ∧ ∃ (placed events : List Placed) (m : ManualScanner),
          (ManualScanner.nextTokens 1 (.ofSource source)).2.scanAll = (events, none, m)
            ∧ placed.map Placed.absolute = ((tokenize source).take 1).map .token
            ∧ tokensOf (events.map Placed.absolute) = (tokenize source).drop 1 := by
  intro source calls run
  have hend : ∃ t ∈ run.1.filterMap Answer.taken?, t.kind = .eof := by decide +kernel
  have hlength : 1 < (tokenize source).length := by decide +kernel
  have hreported : run.2.scan.reported = [⟨.unexpectedCharacter (some '@'), 2, 1⟩] := by
    decide +kernel
  obtain ⟨-, -, -, htaken, -, -, -, hrefused, -, hby⟩ := lookahead_reads_list source calls
  obtain ⟨placed, events, m, -, hall, habsolute, hrest⟩ := hby 1 hlength
  have hall₃ : (tokenize source).take 3 = tokenize source := by decide +kernel
  exact ⟨hend, htaken.trans hall₃, hreported, hrefused hend, hlength, placed, events, m, hall,
    habsolute, hrest⟩

end Lox

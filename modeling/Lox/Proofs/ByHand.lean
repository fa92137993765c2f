/-
A scanner driven by hand from the start of its source.

As long as only tokens are asked of it, a scanner driven by hand stands where
a plain scanner stands (`ManualScanner.IsAt`), between the start and the end of
its source, and nothing can fail there. It reads from offset zero of what is
left, so what it reads is placed as far down as it stands (`Placed.absolute`).

Each turn of a scan by hand is then a step of the plain scan
(`IsAt.turn_end`, `IsAt.turn_event`). So the next token is that of the running
scan (`exists_tokenFrom`), and scanning the rest gives the events from there
(`exists_scanAll`).
-/
import Lox.Lookahead
import Lox.Proofs.Seam
import Lox.Proofs.Tiling
import Lox.Scanner.Manual

namespace Lox

/-- What was read by hand, where it is in the source. -/
def Placed.absolute (p : Placed) : Event :=
  p.event.shift p.base.toNat 0

/-- A token in its place is a token by itself. -/
theorem Placed.exists_token {p : Placed} {t : Token} (h : p.absolute = .token t) :
    ∃ u, p.event = .token u := by
  unfold absolute at h
  cases hevent : p.event with
  | token u => exact ⟨u, rfl⟩
  | error e =>
      rw [hevent] at h
      cases h

/-- An error in its place is an error by itself. -/
theorem Placed.exists_error {p : Placed} {e : LexError} (h : p.absolute = .error e) :
    ∃ e', p.event = .error e' := by
  unfold absolute at h
  cases hevent : p.event with
  | error e' => exact ⟨e', rfl⟩
  | token t =>
      rw [hevent] at h
      cases h

/-- A scanner on what is left, from offset zero. -/
def Scanner.restart (s : Scanner) : Scanner :=
  { rest := s.rest, line := s.line }

/-- To restart and to move on to the same place changes nothing. -/
theorem Scanner.shift_restart (s : Scanner) : s.restart.shift s.pos 0 = s := by
  simp [shift, restart]

namespace ManualScanner

-- ============================================================= positions

/-- A scanner driven by hand that stands where a plain scanner of its source
does. -/
structure IsAt (m : ManualScanner) (s : Scanner) : Prop where
  follows : s.Follows m.source
  pos : m.pos = s.pos
  line : m.line = s.line

/-- Both start at the start of the text. -/
theorem isAt_ofSource (source : String) : (ofSource source).IsAt (.ofSource source) :=
  ⟨Scanner.follows_ofSource source, rfl, rfl⟩

namespace IsAt

variable {m : ManualScanner} {s : Scanner}

/-- The place of the manual scanner in the text is the position of the other
one. -/
theorem place_eq (h : m.IsAt s) : Text.place m.source.length m.pos = s.pos := by
  rw [h.pos, Text.place_natCast]

/-- Reading can start anywhere from the start to the end of the source. -/
theorem ahead_eq (h : m.IsAt s) : m.ahead = .ok s.rest := by
  have hpeek : ∃ c, m.peek 0 = .ok c := by
    unfold peek
    split
    · exact ⟨_, rfl⟩
    · next hlt =>
        have hlt : s.pos < m.source.length := by
          rw [h.pos, length] at hlt
          omega
        rw [h.pos, Int.add_zero, Text.atIndex_natCast (List.getElem?_eq_getElem hlt)]
        exact ⟨_, rfl⟩
  obtain ⟨c, hpeek⟩ := hpeek
  have hpos : ¬ m.pos < 0 := by
    rw [h.pos]
    omega
  unfold ahead
  rw [hpeek]
  dsimp only
  rw [if_neg hpos, h.place_eq, h.follows.rest]

/-- Where a plain scanner of what is left gets to. -/
theorem after (h : m.IsAt s) {t : Scanner} (ht : (t.shift s.pos 0).Follows m.source) :
    (m.after t).IsAt (t.shift s.pos 0) := by
  refine ⟨ht, ?_, rfl⟩
  show m.pos + t.pos = ((t.pos + s.pos : Nat) : Int)
  rw [h.pos]
  omega

/-- Trivia are skipped as in the plain scan. -/
theorem skipTrivia (h : m.IsAt s) :
    ∃ m', m.skipTrivia = .ok m' ∧ m'.IsAt s.skipTrivia ∧ m'.isOver = m.isOver := by
  have hshift := Scanner.skipTrivia_shift s.pos 0 s.restart
  rw [s.shift_restart] at hshift
  refine ⟨m.after s.restart.skipTrivia, ?_, ?_, rfl⟩
  · unfold ManualScanner.skipTrivia skip
    rw [h.ahead_eq, h.line]
    rfl
  · have hfollows : s.skipTrivia.Follows m.source :=
      h.follows.pass (Scanner.triviaLength_le _)
    rw [hshift] at hfollows ⊢
    exact h.after hfollows

/-- An event is read as in the plain scan. -/
theorem scanToken (h : m.IsAt s) (hne : s.rest ≠ []) (hlead : Scanner.Leadless s.rest) :
    ∃ p m', m.scanToken = (.ok p, m') ∧ p.absolute = s.scanToken.1 ∧ m'.IsAt s.scanToken.2
      ∧ m'.isOver = m.isOver := by
  have hscans := (Scanner.scans_scanToken (s := s.restart) hne).shift s.pos 0
  rw [s.shift_restart] at hscans
  obtain ⟨n, hn, hpass⟩ := hscans.passes hlead
  have hpos : 0 ≤ m.pos := by
    rw [h.pos]
    omega
  have hreadable : m.readable s.rest = s.rest := by
    obtain ⟨c, rest, hs⟩ := List.exists_cons_of_ne_nil hne
    rw [hs, readable, if_pos (by simp [hpos])]
  have hplaced (e : Event) : m.placed e = .ok ⟨m.pos, e⟩ := if_pos hpos
  refine ⟨⟨m.pos, s.restart.scanToken.1⟩, m.after s.restart.scanToken.2, ?_, ?_, ?_, rfl⟩
  · unfold ManualScanner.scanToken
    rw [h.ahead_eq]
    dsimp only
    rw [hreadable, h.line, hplaced]
    rfl
  · rw [Scanner.scanToken_of_scans hscans, Placed.absolute, h.pos, Int.toNat_natCast]
  · have hfollows := h.follows.pass hn
    rw [← hpass] at hfollows
    rw [Scanner.scanToken_of_scans hscans]
    exact h.after hfollows

-- ================================================================= turns

/-- At the end of the source a turn finishes the scan. -/
theorem turn_end (h : m.IsAt s) (hrest : s.skipTrivia.rest = []) :
    ∃ p m', m.turn = .finished p m' ∧ p.absolute = .token s.skipTrivia.endToken
      ∧ m'.IsAt s.skipTrivia ∧ m'.isOver = m.isOver := by
  obtain ⟨m', hskip, hat, hover⟩ := h.skipTrivia
  have hlength := hat.follows.length_rest
  rw [hrest, List.length_nil] at hlength
  refine ⟨⟨m'.pos, .token ({ rest := [], line := m'.line } : Scanner).endToken⟩, m', ?_, ?_, hat,
    hover⟩
  · unfold turn
    rw [hskip]
    exact if_pos (by rw [length, hat.pos]; omega)
  · rw [Placed.absolute, hat.pos, Int.toNat_natCast, hat.line]
    simp [Event.shift, Token.shift, Scanner.endToken, Nat.add_comm]

/-- Before the end a turn is one event. -/
theorem turn_event (h : m.IsAt s) (hrest : s.skipTrivia.rest ≠ []) :
    ∃ p m', m.turn = .more p m' ∧ p.absolute = s.skipTrivia.scanToken.1
      ∧ m'.IsAt s.skipTrivia.scanToken.2 ∧ m'.isOver = m.isOver := by
  obtain ⟨m₁, hskip, hat, hover⟩ := h.skipTrivia
  obtain ⟨p, m', hscan, hp, hat', hover'⟩ := hat.scanToken hrest (Scanner.leadless_skipTrivia s)
  have hlength := hat.follows.length_rest
  have hpos := List.length_pos_iff.2 hrest
  refine ⟨p, m', ?_, hp, hat', hover'.trans hover⟩
  unfold turn
  rw [hskip]
  dsimp only
  rw [if_neg (by rw [length, hat.pos]; omega), hscan]

end IsAt

-- ================================================================= scans

/-- The scan of the rest, turn by turn. -/
theorem scanAll_eq (m : ManualScanner) :
    m.scanAll = match m.turn with
      | .finished endToken m' => ([endToken], none, m')
      | .failed fault m' => ([], some fault, m')
      | .more event m' => (event :: m'.scanAll.1, m'.scanAll.2) := by
  rw [scanAll]
  split <;> next h => exact h ▸ rfl

/-- Scanning the rest gives the events of the plain scan from there. -/
theorem exists_scanAll (s : Scanner) (m : ManualScanner) (h : m.IsAt s) :
    ∃ events m', m.scanAll = (events, none, m') ∧ events.map Placed.absolute = s.events := by
  revert m
  fun_induction Scanner.events s with
  | case1 s t hrest =>
      intro m h
      obtain ⟨p, m', hturn, hp, -⟩ := h.turn_end hrest
      refine ⟨[p], m', ?_, congrArg (fun e => [e]) hp⟩
      rw [scanAll_eq, hturn]
  | case2 s t hrest ih =>
      intro m h
      obtain ⟨p, m', hturn, hp, hat, -⟩ := h.turn_event hrest
      obtain ⟨events, m'', hall, hevents⟩ := ih m' hat
      refine ⟨p :: events, m'', ?_, ?_⟩
      · rw [scanAll_eq, hturn]
        dsimp only
        rw [hall]
      · rw [List.map_cons, hp, hevents]

-- ============================================================ next tokens

/-- A scanner driven by hand that stands where a running scan does, and is over
if it is. -/
structure Runs (m : ManualScanner) (r : RunningScan) : Prop extends m.IsAt r.scanner where
  isOver : m.isOver = r.isOver

/-- A manual scanner that starts runs along a scanner that starts. -/
theorem runs_ofSource (source : String) : (ofSource source).Runs (.ofSource source) :=
  ⟨isAt_ofSource source, rfl⟩

/-- The next token, turn by turn. -/
theorem tokenFrom_eq (m : ManualScanner) :
    m.tokenFrom = match m.turn with
      | .finished endToken m' => ([], .ok endToken, { m' with isOver := true })
      | .failed fault m' => ([], .error fault, { m' with isOver := true })
      | .more event m' =>
          match event.event with
          | .token _ => ([], .ok event, m')
          | .error _ => (event :: m'.tokenFrom.1, m'.tokenFrom.2) := by
  rw [tokenFrom]
  split <;> next h => exact h ▸ rfl

/-- Before the scan is over, the next token by hand is that of the running
scan. -/
theorem exists_tokenFrom (r : RunningScan) (m : ManualScanner) (h : m.Runs r)
    (hover : r.isOver = false) :
    ∃ errors p m' t, m.tokenFrom = (errors, .ok p, m') ∧ r.next.1 = some t
      ∧ p.absolute = .token t ∧ m'.Runs r.next.2 := by
  revert m
  -- by induction over the errors passed on the way to the token
  fun_induction RunningScan.next r with
  | case1 r hr =>
      rw [hover] at hr
      cases hr
  | case2 r hr s hrest =>
      intro m h
      obtain ⟨p, m', hturn, hp, hat, -⟩ := h.turn_end hrest
      refine ⟨[], p, { m' with isOver := true }, s.endToken, ?_, rfl, hp,
        ⟨hat.follows, hat.pos, hat.line⟩, rfl⟩
      rw [tokenFrom_eq, hturn]
  | case3 r hr s hrest t ht =>
      intro m h
      obtain ⟨p, m', hturn, hp, hat, hsame⟩ := h.turn_event hrest
      have hp : p.absolute = .token t := hp.trans ht
      obtain ⟨u, hu⟩ := Placed.exists_token hp
      refine ⟨[], p, m', t, ?_, rfl, hp, hat, hsame.trans h.isOver⟩
      rw [tokenFrom_eq, hturn]
      dsimp only
      rw [hu]
  | case4 r hr s hrest e he ih =>
      intro m h
      obtain ⟨p, m', hturn, hp, hat, hsame⟩ := h.turn_event hrest
      obtain ⟨e', he'⟩ := Placed.exists_error (hp.trans he)
      have hruns : m'.Runs { scanner := s.scanToken.2, reported := r.reported ++ [e] } :=
        ⟨hat, hsame.trans (h.isOver.trans hover)⟩
      obtain ⟨errors, q, m'', t, hfrom, hnext, hq, hruns'⟩ := ih rfl m' hruns
      refine ⟨p :: errors, q, m'', t, ?_, hnext, hq, hruns'⟩
      rw [tokenFrom_eq, hturn]
      dsimp only
      rw [he', hfrom]

/-- Some requests for the next token, one after the other. -/
def nextTokens : Nat → ManualScanner → List (Option (Except ManualFault Placed)) × ManualScanner
  | 0, m => ([], m)
  | k + 1, m =>
      let later := nextTokens k m.nextToken.2.2
      (m.nextToken.2.1 :: later.1, later.2)

end ManualScanner

end Lox

/-
What has been reported when parsing stops.

A lexical error goes on record when the reader looks at the token behind it,
so what is on record tells how far the reader has looked. A parser that
gives up never has looked beyond the token it objects to: either it has just
taken that token, or it has looked at it and left it. `c.Told t errors` says
what is then on record, the errors before `t` in the events of `c` and no
more. Every parser that objects to a token leaves such a record
(`Parsed.Points`), since each one that succeeds hands on a record that fits
the events it has passed (`Reaches`).

The tokens of a source all differ, by where they stand, so that the errors
before a token are a matter of the source and the token (`errorsBefore`).
-/
import Lox.Proofs.Positions
import Lox.Proofs.Tiling

namespace Lox

open Grammar (Statement Statements)

-- ================================================================ records

namespace Cursor

/-- `c.Reaches c'`: some events of `c` are passed in `c'`, and the errors among
them are on record. -/
def Reaches (c c' : Cursor) : Prop :=
  ∃ passed, c.pending = passed ++ c'.pending ∧ c'.reported = c.reported ++ errorsOf passed

/-- `c.Told t errors`: what is on record once the reader at `c` has come to the
token `t`, and looked no further. -/
def Told (c : Cursor) (t : Token) (errors : List LexError) : Prop :=
  ∃ passed rest, c.pending = passed ++ .token t :: rest
    ∧ errors = c.reported ++ errorsOf passed

theorem Reaches.refl (c : Cursor) : c.Reaches c :=
  ⟨[], rfl, by simp⟩

/-- What is told of a token further on is told from before. -/
theorem Reaches.told {c c' : Cursor} {t : Token} {errors : List LexError} (h : c.Reaches c')
    (ht : c'.Told t errors) : c.Told t errors := by
  obtain ⟨passed, hc, hreported⟩ := h
  obtain ⟨passed', rest, hc', rfl⟩ := ht
  refine ⟨passed ++ passed', rest, ?_, ?_⟩
  · rw [hc, hc', List.append_assoc]
  · rw [hreported, errorsOf_append, List.append_assoc]

/-- A token that the reader has come to is among those that were pending. -/
theorem Told.mem {c : Cursor} {t : Token} {errors : List LexError} (h : c.Told t errors) :
    t ∈ tokensOf c.pending := by
  obtain ⟨passed, rest, hc, -⟩ := h
  rw [hc, tokensOf_append, tokensOf_token]
  exact List.mem_append_right _ (List.mem_cons_self ..)

/-- Taking tokens puts the errors between them on record. -/
theorem Takes.reaches {c c' : Cursor} {ts : List Token} (h : c.Takes ts c') : c.Reaches c' := by
  obtain ⟨passed, hc, -, hreported⟩ := h.events
  exact ⟨passed, hc, hreported⟩

/-- Looking ahead puts the errors in front on record. -/
theorem reaches_settle (c : Cursor) : c.Reaches c.settle := by
  unfold settle
  obtain ⟨pending, reported⟩ := c
  dsimp only
  fun_induction settleFrom reported pending with
  | case1 reported e rest ih =>
      obtain ⟨passed, hrest, hreported⟩ := ih
      refine ⟨.error e :: passed, ?_, ?_⟩
      · exact congrArg (Event.error e :: ·) hrest
      · rw [hreported, errorsOf_error, List.append_assoc]
        rfl
  | case2 reported pending hp => exact .refl _

/-- When a token is taken, the errors before it are on record and no others. -/
theorem told_of_next {c c' : Cursor} {t : Token} (h : c.next = (some t, c')) :
    c.Told t c'.reported := by
  obtain ⟨skipped, -, hc, hreported⟩ := next_eq_some_iff.1 h
  exact ⟨skipped, c'.pending, hc, hreported⟩

/-- So it is when a token is looked at. -/
theorem told_of_front {c : Cursor} {t : Token} (h : c.settle.front? = some t) :
    c.Told t c.settle.reported := by
  apply (reaches_settle c).told
  obtain ⟨rest, hrest⟩ : ∃ rest, c.settle.pending = .token t :: rest := by
    unfold front? at h
    split at h
    · next u rest hpending =>
        cases h
        exact ⟨rest, hpending⟩
    · cases h
  exact ⟨[], rest, hrest, by simp⟩

end Cursor

-- ============================================================= objections

/-- A parse from `c` that, if it objects to a token, has just come to it. -/
def Parsed.Points {α : Type} (r : Parsed α) (c : Cursor) : Prop :=
  ∀ fault t, r.1 = .error (.rejected fault (some t)) → c.Told t r.2.reported

namespace Parsed

theorem points_ok {α : Type} (a : α) (c c' : Cursor) : Points (.ok a, c') c := by
  intro fault t h
  cases h

theorem points_exhausted {α : Type} (c c' : Cursor) :
    Points ((.error .exhausted, c') : Parsed α) c := by
  intro fault t h
  cases h

/-- What points from further on points from before. -/
theorem Points.reached {α : Type} {r : Parsed α} {c c' : Cursor} (h : r.Points c')
    (hc : c.Reaches c') : r.Points c :=
  fun fault t herror => hc.told (h fault t herror)

/-- A parse in two parts points if both parts do, the second from where the
first has ended. -/
theorem Points.andThen {α β : Type} {r : Parsed α} {k : α → Cursor → Parsed β} {c : Cursor}
    (h : r.Points c) (hk : ∀ a c', r = (.ok a, c') → c.Reaches c' ∧ (k a c').Points c') :
    (r.andThen k).Points c := by
  rcases r with ⟨failure | a, c'⟩
  · intro fault t herror
    cases herror
    exact h fault t rfl
  · obtain ⟨hreaches, hpoints⟩ := hk a c' rfl
    exact hpoints.reached hreaches

end Parsed

/-- A yard objects to the token it is given. -/
theorem Yard.token_of_feed {y : Yard} {t u : Token} {fault : SyntaxFault}
    (h : y.feed t = .error (.rejected fault (some u))) : u = t := by
  have hrelabel := Yard.feed_relabel (relabeling_displaced [t]) y t
  have hself : displaced [t] t = t := if_pos (List.mem_singleton.2 rfl)
  rw [hself, h] at hrelabel
  injection hrelabel with hfailure
  injection hfailure with _ htoken
  exact List.mem_singleton.1 (mem_of_displaced (Option.some.inj htoken).symm)

/-- A yard objects to the token it is fed, or at the end to the one behind the
expression. -/
theorem Yard.run_points (y : Yard) (reported : List LexError) (events : List Event) :
    (y.run reported events).Points ⟨events, reported⟩ := by
  fun_induction Yard.run y reported events with
  | case1 y reported =>
      intro fault t herror
      cases herror
  | case2 y reported e rest ih => exact ih.reached ⟨[.error e], rfl, rfl⟩
  | case3 y reported t rest hends =>
      intro fault u herror
      unfold Yard.finish at herror
      split at herror
      · cases herror
      · cases herror
        exact ⟨[], rest, rfl, by simp⟩
  | case4 y reported t rest hends failure hfeed =>
      intro fault u herror
      cases herror
      rw [Yard.token_of_feed hfeed]
      exact ⟨[], rest, rfl, by simp⟩
  | case5 y reported t rest hends y' hfeed ih => exact ih.reached ⟨[.token t], rfl, by simp⟩

namespace Cursor

variable (c : Cursor)

/-- So a rejected expression has put on record the errors before the token it is
rejected at. -/
theorem expression_points : c.expression.Points c :=
  Yard.run_points _ c.reported c.pending

/-- An expression that parses has put on record the errors it has passed. -/
theorem reaches_expression {c c' : Cursor} {e : Node} (h : c.expression = (.ok e, c')) :
    c.Reaches c' := by
  obtain ⟨before, z, after, hc, -, -, rfl⟩ := expression_eq_ok_iff.1 h
  exact ⟨before, hc, rfl⟩

/-- An unexpected token is the last one looked at. -/
theorem expect_points (kind : Kind) (fault : SyntaxFault) : (c.expect kind fault).Points c := by
  unfold expect
  split
  · exact Parsed.points_exhausted _ _
  · next t after hnext =>
      split
      · exact Parsed.points_ok _ _ _
      · intro fault' u herror
        cases herror
        exact told_of_next hnext

/-- An expected one is taken. -/
theorem reaches_expect {c c' : Cursor} {kind : Kind} {fault : SyntaxFault} {t : Token}
    (h : c.expect kind fault = (.ok t, c')) : c.Reaches c' :=
  (Takes.one (expect_eq_ok_iff.1 h).1).reaches

/-- A statement that ends in an expression points. -/
theorem ended_points (fault : SyntaxFault) (make : Node → Node) : (c.ended fault make).Points c := by
  apply c.expression_points.andThen
  intro e c₁ he
  refine ⟨reaches_expression he, (c₁.expect_points _ _).andThen ?_⟩
  intro t c₂ ht
  exact ⟨reaches_expect ht, Parsed.points_ok _ _ _⟩

theorem declarationEnd_points (n : Node) : (c.declarationEnd n).Points c := by
  apply (c.expect_points _ _).andThen
  intro t c₁ ht
  exact ⟨reaches_expect ht, Parsed.points_ok _ _ _⟩

theorem reaches_next {c : Cursor} {t : Token} (h : c.settle.front? = some t) :
    c.Reaches (c.next).2 :=
  (Takes.one (next_of_front h)).reaches

theorem varRest_points : c.varRest.Points c := by
  apply (c.expect_points _ _).andThen
  intro x c₁ hx
  refine ⟨reaches_expect hx, ?_⟩
  simp only [look]
  cases hfront : c₁.settle.front? with
  | none => exact Parsed.points_exhausted _ _
  | some t =>
      dsimp only
      by_cases ht : t.kind = .equal
      · rw [if_pos ht, next_settle]
        exact (ended_points _ _ _).reached (reaches_next hfront)
      · rw [if_neg ht]
        exact (declarationEnd_points _ _).reached (reaches_settle c₁)

theorem simple_points {c : Cursor} {t : Token} (h : c.settle.front? = some t) :
    (c.simple t.kind).Points c := by
  unfold simple
  split
  · exact (ended_points _ _ _).reached (reaches_next h)
  · exact (varRest_points _).reached (reaches_next h)
  · exact ended_points c _ _

end Cursor

/-- A turn at `c` that goes on, or ends in a parse that points. -/
def Turn.Points (turn : Turn) (c : Cursor) : Prop :=
  ∀ r, turn = .done r → r.Points c

theorem Turn.place_points (n : Node) (c c' : Cursor) (blocks : OpenBlocks) :
    (Turn.place n c' blocks).Points c := by
  intro r h
  cases blocks with
  | nil =>
      cases h
      exact Parsed.points_ok _ _ _
  | cons => cases h

namespace Cursor

/-- What begins at a token points, be it a block or a simple statement. -/
theorem begin_points {c : Cursor} {t : Token} (h : c.settle.front? = some t)
    (blocks : OpenBlocks) : (c.begin t blocks).Points c := by
  unfold begin
  split
  · intro r hdone
    cases hdone
  · have hsimple := simple_points h
    split
    · exact Turn.place_points _ _ _ _
    · next heq =>
        rw [heq] at hsimple
        intro r hdone
        cases hdone
        exact hsimple

theorem turn_points (c : Cursor) (blocks : OpenBlocks) : (c.turn blocks).Points c := by
  have hbegin {t : Token} (h : c.settle.front? = some t) (blocks : OpenBlocks) :
      (c.settle.begin t blocks).Points c := by
    intro r hdone
    have hfront : c.settle.settle.front? = some t := by rwa [settle_settle]
    exact (begin_points hfront blocks r hdone).reached (reaches_settle c)
  unfold turn
  dsimp only
  split
  · intro r hdone
    cases hdone
    intro fault t herror
    cases herror
  · intro r hdone
    cases hdone
    exact Parsed.points_exhausted _ _
  · next h => exact hbegin h []
  · next t ss outer h =>
      split
      · exact Turn.place_points _ _ _ _
      · split
        · intro r hdone
          cases hdone
          intro fault u herror
          cases herror
          exact told_of_front h
        · exact hbegin h (ss :: outer)

/-- A turn that goes on has passed what it has taken. -/
theorem reaches_turn {c c' : Cursor} {blocks blocks' : OpenBlocks}
    (h : c.turn blocks = .more blocks' c') : c.Reaches c' := by
  have hmoves := turn_moves c blocks
  rw [h] at hmoves
  cases hmoves with
  | opened _ htakes => exact htakes.reaches
  | member _ htakes => exact htakes.reaches
  | inner _ htakes => exact htakes.reaches

/-- And so does a whole statement, whatever blocks it is in. -/
theorem statementIn_points (blocks : OpenBlocks) (c : Cursor) :
    (statementIn blocks c).Points c := by
  fun_induction statementIn blocks c with
  | case1 blocks c r hturn => exact turn_points c blocks r hturn
  | case2 blocks c blocks' c' hturn ih => exact ih.reached (reaches_turn hturn)

/-- Where a program is rejected, the errors before the token are on record. -/
theorem program_told {c : Cursor} {fault : SyntaxFault} {t : Token}
    (h : c.program.2.1 = some (.rejected fault (some t))) : c.Told t c.program.2.2.reported := by
  obtain ⟨ts, c', -, htakes, hstops⟩ := c.program_takes
  apply htakes.reaches.told
  rw [h] at hstops
  cases hstops with
  | failed _ hstatement =>
      have hpoints := statementIn_points [] c' fault t (congrArg Prod.fst hstatement)
      rwa [show statementIn [] c' = _ from hstatement] at hpoints

/-- Where an expression ends, the errors before its terminator are on
record. -/
theorem expression_told {c c' : Cursor} {e : Node} (h : c.expression = (.ok e, c')) :
    ∃ z, z.kind.endsExpression = true ∧ (c'.look).1 = some z ∧ c.Told z c'.reported := by
  obtain ⟨before, z, after, hc, hz, -, rfl⟩ := expression_eq_ok_iff.1 h
  exact ⟨z, hz, rfl, before, after, hc, rfl⟩

end Cursor

-- ================================================================ sources

/-- The lexical errors that come before a token among some events. -/
def errorsBefore (t : Token) (events : List Event) : List LexError :=
  errorsOf (events.takeWhile (· ≠ .token t))

/-- The tokens of a source differ: each starts where those before it have
ended, and only the last marks the end. -/
theorem tokenize_nodup (source : String) : (tokenize source).Nodup := by
  obtain ⟨tiles, last, htiles, hall, hevents, hlast, -⟩ :=
    Scanner.exists_tiles_events (Scanner.follows_ofSource source)
  have htokens : tokenize source = tiles.filterMap Tile.token? ++ [last] := by
    unfold tokenize scan
    rw [hevents, tokensOf_append, tokensOf_filterMap]
    rfl
  have hshape : ∀ t ∈ tiles.filterMap Tile.token?, t.kind ≠ .eof ∧ t.start < t.stop := by
    intro t ht
    obtain ⟨tile, htile, ht⟩ := List.mem_filterMap.1 ht
    obtain ⟨hkind, hstart, hstop, -⟩ := (hall tile htile).token ht
    rw [hstart, hstop]
    exact ⟨hkind, (htiles.bounds tile htile).2.1⟩
  have hbody : (tiles.filterMap Tile.token?).Nodup := by
    refine (htiles.tokens_pairwise hall).imp_of_mem fun {t u} ht _ htu heq => ?_
    have hlt := (hshape t ht).2
    rw [← heq] at htu
    omega
  rw [htokens, List.nodup_append]
  refine ⟨hbody, List.pairwise_singleton _ last, ?_⟩
  intro t ht u hu heq
  rw [heq, List.mem_singleton.1 hu] at ht
  exact (hshape last ht).1 hlast

/-- What is on record at a token are the errors before it in the source. -/
theorem errorsBefore_of_told {source : String} {t : Token} {errors : List LexError}
    (h : (Cursor.ofSource source).Told t errors) : errors = errorsBefore t (scan source) := by
  obtain ⟨passed, rest, hscan, rfl⟩ := h
  change scan source = _ at hscan
  have hnodup : (tokensOf passed ++ t :: tokensOf rest).Nodup := by
    have h := tokenize_nodup source
    unfold tokenize at h
    rwa [hscan, tokensOf_append, tokensOf_token] at h
  have hpassed : ∀ event ∈ passed, event ≠ .token t := by
    rintro event hevent rfl
    have ht : t ∈ tokensOf passed := List.mem_filterMap.2 ⟨_, hevent, rfl⟩
    exact (List.nodup_append.1 hnodup).2.2 t ht t (List.mem_cons_self ..) rfl
  unfold errorsBefore
  rw [hscan, List.takeWhile_append_of_pos (by simpa using hpassed)]
  simp [Cursor.ofSource]

/-- All errors come before the end token. -/
theorem errorsBefore_last {source : String} {ts : List Token} {last : Token}
    (h : tokenize source = ts ++ [last]) :
    errorsBefore last (scan source) = errorsOf (scan source) := by
  obtain ⟨body, last', hscan, -⟩ := (Scanner.ofSource source).events_eq
  change scan source = _ at hscan
  have hlast : last' = last := by
    unfold tokenize at h
    rw [hscan, tokensOf_append] at h
    exact (List.append_inj' h rfl).2 |> List.cons.inj |>.1
  rw [hlast] at hscan
  have htold : (Cursor.ofSource source).Told last (errorsOf body) := ⟨body, [], hscan, rfl⟩
  rw [← errorsBefore_of_told htold, hscan, errorsOf_append, errorsOf_token]
  exact (List.append_nil _).symm

end Lox

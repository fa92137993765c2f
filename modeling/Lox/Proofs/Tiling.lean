/-
The scan of a source loses nothing.

# Tiles

A tile is a stretch of the source with what the scanner made of it: a token,
a blank, a comment, a character that starts no token, or a string that is
not closed. `Tile.IsIn` says of each kind when a stretch of a text deserves
the name, in terms of the text alone. `Tiles a tiles b` says that tiles
cover the offsets from `a` to `b` one after the other, none of them empty.

# The scan as a tiling

A scanner is in step with a text if what is left of it is the text from the
scanner's offset on (`Follows`). From such a scanner, skipping trivia lays
blanks and comments (`exists_tiles_trivia`), reading an event lays one tile
that carries the event (`exists_tile_scanToken`), and both stay in step; so
the whole scan tiles the text up to its end, by induction along the events
(`exists_tiles_events`). Order and uniqueness are then facts about tilings.
-/
import Mathlib.Logic.ExistsUnique
import Lox.Proofs.Scanning
import Lox.Proofs.Source

namespace Lox

-- ================================================================= tiles

/-- What a stretch of a source is to the scanner. -/
inductive Stretch where
  | token (t : Token)
  | blank
  | comment
  | badCharacter (e : LexError)
  | openString (e : LexError)

/-- A stretch of a source, from its first offset to before its last. -/
structure Tile where
  start : Nat
  stop : Nat
  stretch : Stretch

/-- The characters of a text from one offset to before another. -/
def between (text : List Char) (start stop : Nat) : List Char :=
  (text.drop start).take (stop - start)

/-- A character that is neither blank nor the first of any token. -/
def StartsNothing (c : Char) : Prop :=
  Text.isBlank c = false ∧ c ≠ '"' ∧ Scanner.isDigit c = false ∧ Scanner.isWordStart c = false
    ∧ c ∉ Scanner.markStarts

namespace Tile

/-- The event that a tile gives rise to. -/
def event? (tile : Tile) : Option Event :=
  match tile.stretch with
  | .token t => some (.token t)
  | .badCharacter e | .openString e => some (.error e)
  | .blank | .comment => none

/-- The token that a tile is. -/
def token? (tile : Tile) : Option Token :=
  tile.event?.bind Event.token?

/-- The lexical error that a tile gives rise to. -/
def error? (tile : Tile) : Option LexError :=
  tile.event?.bind Event.error?

/-- A tile is in a text what it says: a token has the characters of the
stretch; a blank and a bad character are one character; a comment runs to
before a line feed or the end; an open string runs to the end, and its error
points there. -/
def IsIn (text : List Char) (tile : Tile) : Prop :=
  match tile.stretch with
  | .token t =>
      t.kind ≠ .eof ∧ t.start = tile.start ∧ t.stop = tile.stop
        ∧ t.lexeme = String.ofList (between text tile.start tile.stop)
  | .blank => ∃ c, between text tile.start tile.stop = [c] ∧ Text.isBlank c = true
  | .comment =>
      (∃ body, between text tile.start tile.stop = '/' :: '/' :: body ∧ '\n' ∉ body)
        ∧ (tile.stop = text.length ∨ text[tile.stop]? = some '\n')
  | .badCharacter e =>
      ∃ c, between text tile.start tile.stop = [c] ∧ StartsNothing c
        ∧ e.fault = .unexpectedCharacter (some c) ∧ e.offset = tile.start
  | .openString e =>
      (∃ body, between text tile.start tile.stop = '"' :: body ∧ '"' ∉ body)
        ∧ tile.stop = text.length ∧ e.fault = .unterminatedString ∧ e.offset = text.length

end Tile

/-- `Tiles a tiles b`: the tiles cover the offsets from `a` to before `b`,
each starting where the one before it stops. -/
def Tiles : Nat → List Tile → Nat → Prop
  | a, [], b => a = b
  | a, tile :: tiles, b => tile.start = a ∧ a < tile.stop ∧ Tiles tile.stop tiles b

-- =============================================================== tilings

namespace Tiles

/-- Two tilings that meet make one. -/
theorem append {a b c : Nat} {xs ys : List Tile} (h : Tiles a xs b) (h' : Tiles b ys c) :
    Tiles a (xs ++ ys) c := by
  induction xs generalizing a with
  | nil =>
      cases h
      exact h'
  | cons tile xs ih => exact ⟨h.1, h.2.1, ih h.2.2⟩

/-- A tiling does not end before it starts. -/
theorem le {a b : Nat} {tiles : List Tile} (h : Tiles a tiles b) : a ≤ b := by
  induction tiles generalizing a with
  | nil => exact Nat.le_of_eq h
  | cons tile tiles ih =>
      have := ih h.2.2
      have := h.2.1
      omega

/-- No tile is empty, and all lie within the bounds of the tiling. -/
theorem bounds {a b : Nat} {tiles : List Tile} (h : Tiles a tiles b) :
    ∀ tile ∈ tiles, a ≤ tile.start ∧ tile.start < tile.stop ∧ tile.stop ≤ b := by
  induction tiles generalizing a with
  | nil =>
      intro tile htile
      cases htile
  | cons first tiles ih =>
      obtain ⟨hstart, hlt, hrest⟩ := h
      have hle := hrest.le
      rw [List.forall_mem_cons]
      refine ⟨⟨by omega, by omega, hle⟩, fun tile htile => ?_⟩
      have := ih hrest tile htile
      omega

/-- Every tile stops before any later one starts. -/
theorem pairwise {a b : Nat} {tiles : List Tile} (h : Tiles a tiles b) :
    tiles.Pairwise fun x y => x.stop ≤ y.start := by
  induction tiles generalizing a with
  | nil => exact .nil
  | cons first tiles ih =>
      obtain ⟨-, -, hrest⟩ := h
      exact .cons (fun tile htile => (hrest.bounds tile htile).1) (ih hrest)

/-- Each offset lies in one tile. -/
theorem existsUnique_mem {a b i : Nat} {tiles : List Tile} (h : Tiles a tiles b) (ha : a ≤ i)
    (hb : i < b) : ∃! tile, tile ∈ tiles ∧ tile.start ≤ i ∧ i < tile.stop := by
  induction tiles generalizing a with
  | nil =>
      have : a = b := h
      omega
  | cons first tiles ih =>
      obtain ⟨hstart, hlt, hrest⟩ := h
      by_cases hi : i < first.stop
      · refine ⟨first, ⟨List.mem_cons_self .., by omega, hi⟩, ?_⟩
        rintro tile ⟨htile, hlo, hhi⟩
        rcases List.mem_cons.1 htile with rfl | htile
        · rfl
        · have := (hrest.bounds tile htile).1
          omega
      · obtain ⟨tile, ⟨htile, hlo, hhi⟩, hunique⟩ := ih hrest (by omega)
        refine ⟨tile, ⟨List.mem_cons_of_mem _ htile, hlo, hhi⟩, ?_⟩
        rintro other ⟨hother, hlo', hhi'⟩
        rcases List.mem_cons.1 hother with rfl | hother
        · omega
        · exact hunique other ⟨hother, hlo', hhi'⟩

end Tiles

-- ======================================================== scanners in step

namespace Scanner

/-- A scanner in step with a text: what is left is the text from its offset
on. -/
structure Follows (s : Scanner) (text : List Char) : Prop where
  rest : s.rest = text.drop s.pos
  le : s.pos ≤ text.length

/-- A new scanner is at the start of its text. -/
theorem follows_ofSource (source : String) : (ofSource source).Follows source.toList :=
  ⟨rfl, Nat.zero_le _⟩

namespace Follows

variable {s : Scanner} {text : List Char}

/-- What was passed and what is left are the whole text. -/
theorem length_rest (h : s.Follows text) : s.pos + s.rest.length = text.length := by
  have := h.le
  rw [h.rest, List.length_drop]
  omega

/-- The next characters are those of the text from the offset on. -/
theorem between_eq (h : s.Follows text) (n : Nat) :
    between text s.pos (s.pos + n) = s.rest.take n := by
  rw [between, h.rest, Nat.add_sub_cancel_left]

/-- The character some way ahead is that of the text. -/
theorem getElem?_eq (h : s.Follows text) (n : Nat) : text[s.pos + n]? = s.rest[n]? := by
  rw [h.rest, List.getElem?_drop]

/-- A scanner that drops characters stays in step. -/
theorem drop (h : s.Follows text) {n : Nat} (hn : n ≤ s.rest.length) : (s.drop n).Follows text := by
  have := h.length_rest
  refine ⟨?_, ?_⟩
  · rw [rest_drop, h.rest, List.drop_drop, pos_drop]
  · rw [pos_drop]
    omega

theorem pass (h : s.Follows text) {n : Nat} (hn : n ≤ s.rest.length) : (s.pass n).Follows text :=
  ⟨(h.drop hn).rest, (h.drop hn).le⟩

end Follows

/-- A blank or a comment in front is a tile. -/
theorem exists_tile_lead {s : Scanner} {text piece after : List Char} (h : s.Follows text)
    (hs : s.rest = piece ++ after) (hlead : Lead piece after) :
    ∃ stretch, Tile.IsIn text ⟨s.pos, s.pos + piece.length, stretch⟩
      ∧ (Tile.mk s.pos (s.pos + piece.length) stretch).event? = none := by
  have hbetween : between text s.pos (s.pos + piece.length) = piece := by
    rw [h.between_eq, hs, List.take_left]
  cases hlead with
  | blank _ hc => exact ⟨.blank, ⟨_, hbetween, hc⟩, rfl⟩
  | @comment line _ hline hafter =>
      refine ⟨.comment, ⟨⟨line, hbetween, hline⟩, ?_⟩, rfl⟩
      dsimp only
      rw [h.getElem?_eq, hs, List.getElem?_append_right (Nat.le_refl _), Nat.sub_self]
      cases after with
      | nil =>
          left
          rw [← h.length_rest, hs, List.append_nil]
      | cons c rest =>
          right
          rw [hafter c rfl]
          rfl

/-- Trivia are tiled by blanks and comments. -/
theorem exists_tiles_trivia {s : Scanner} {text : List Char} (h : s.Follows text) :
    s.skipTrivia.Follows text
      ∧ ∃ tiles, Tiles s.pos tiles s.skipTrivia.pos
          ∧ ∀ tile ∈ tiles, tile.IsIn text ∧ tile.event? = none := by
  generalize hs : s.rest = cs
  induction cs using leadInduction generalizing s with
  | stop cs hstop =>
      rw [skipTrivia_leadless (hs ▸ hstop)]
      exact ⟨h, [], rfl, fun tile htile => by cases htile⟩
  | step piece after hlead ih =>
      have hlength : piece.length ≤ s.rest.length := by
        rw [hs, List.length_append]
        omega
      obtain ⟨hfollows, tiles, htiles, hall⟩ :=
        ih (h.pass hlength) (by rw [rest_pass, hs, List.drop_left])
      obtain ⟨stretch, hin, hevent⟩ := exists_tile_lead h hs hlead
      rw [skipTrivia_lead hs hlead]
      refine ⟨hfollows, ⟨s.pos, s.pos + piece.length, stretch⟩ :: tiles, ⟨rfl, ?_, htiles⟩, ?_⟩
      · have := hlead.length_pos
        dsimp only
        omega
      · rw [List.forall_mem_cons]
        exact ⟨⟨hin, hevent⟩, hall⟩

-- ============================================================ one event

/-- The characters of a token are the next ones of the text. -/
theorem isIn_tokenOf {s : Scanner} {text : List Char} (h : s.Follows text) {kind : Kind}
    {literal : Option String} {n : Nat} {t : Token} (ht : s.tokenOf kind n literal = .token t)
    (hkind : t.kind ≠ .eof) : Tile.IsIn text ⟨s.pos, s.pos + n, .token t⟩ := by
  cases ht
  refine ⟨hkind, rfl, rfl, ?_⟩
  dsimp only
  rw [h.between_eq]

/-- One event is one tile, which starts and ends where the scanner does. -/
theorem exists_tile_scanToken {s : Scanner} {text : List Char} (h : s.Follows text)
    (hne : s.rest ≠ []) (hlead : Leadless s.rest) :
    (s.scanToken).2.Follows text
      ∧ ∃ stretch, Tile.IsIn text ⟨s.pos, (s.scanToken).2.pos, stretch⟩
          ∧ (Tile.mk s.pos (s.scanToken).2.pos stretch).event? = some (s.scanToken).1 := by
  obtain ⟨e, s', hscans⟩ := exists_scans hne
  have heq := scanToken_of_scans hscans
  obtain ⟨n, hn, hpass⟩ := hscans.passes hlead
  have hfollows : s'.Follows text := hpass ▸ h.pass hn
  -- the end token is made elsewhere, so a scanned token has a tile
  have hscanned : ∀ t, e = .token t → t.kind ≠ .eof := by
    rintro t rfl
    exact (scanned_of_scanToken (congrArg Prod.fst heq)).not_eof
  rw [heq]
  refine ⟨hfollows, ?_⟩
  dsimp only
  cases hscans with
  | string hs hbody => exact ⟨.token _, isIn_tokenOf h rfl (hscanned _ rfl), rfl⟩
  | openString hs hbody =>
      have hlength := h.length_rest
      have hbetween := h.between_eq s.rest.length
      rw [List.take_length] at hbetween
      exact ⟨.openString _, ⟨⟨_, hbetween.trans hs, hbody⟩, hlength, rfl, hlength⟩, rfl⟩
  | number hs _ _ => exact ⟨.token _, isIn_tokenOf h rfl (hscanned _ rfl), rfl⟩
  | word hs _ _ _ => exact ⟨.token _, isIn_tokenOf h rfl (hscanned _ rfl), rfl⟩
  | mark hs _ hk => exact ⟨.token _, isIn_tokenOf h rfl (hscanned _ rfl), rfl⟩
  | @bad c rest hs hc hk =>
      have hbetween := h.between_eq 1
      rw [hs] at hbetween hk hlead
      refine ⟨.badCharacter _, ⟨c, hbetween, ?_, rfl, rfl⟩, rfl⟩
      exact ⟨hlead.isBlank, hc.not_quote, hc.not_digit, hc.not_word, symbol?_eq_none_iff.1 hk⟩

-- ========================================================== the whole scan

/-- A scan in step with a text tiles it to the end. The last event is the end
token there. -/
theorem exists_tiles_events {s : Scanner} {text : List Char} (h : s.Follows text) :
    ∃ tiles last, Tiles s.pos tiles text.length
      ∧ (∀ tile ∈ tiles, tile.IsIn text)
      ∧ s.events = tiles.filterMap Tile.event? ++ [.token last]
      ∧ last.kind = .eof ∧ last.start = text.length ∧ last.stop = text.length + 1 := by
  fun_induction events s with
  | case1 s t hrest =>
      obtain ⟨hfollows, tiles, htiles, hall⟩ := exists_tiles_trivia h
      have hpos : t.pos = text.length := by
        have hlength := Follows.length_rest hfollows
        rw [hrest] at hlength
        exact hlength
      rw [← hpos]
      have hevents : tiles.filterMap Tile.event? = [] :=
        List.filterMap_eq_nil_iff.2 fun tile htile => (hall tile htile).2
      exact ⟨tiles, _, htiles, fun tile htile => (hall tile htile).1, by rw [hevents]; rfl, rfl,
        rfl, rfl⟩
  | case2 s t hrest ih =>
      obtain ⟨hfollows, trivia, htrivia, hall⟩ := exists_tiles_trivia h
      obtain ⟨hfollows', stretch, hin, hevent⟩ :=
        exists_tile_scanToken hfollows hrest (leadless_skipTrivia s)
      obtain ⟨tiles, last, htiles, hall', hevents, hlast⟩ := ih hfollows'
      -- the tiles of one turn: space and comments, without events, and one event
      have htrivial : trivia.filterMap Tile.event? = [] :=
        List.filterMap_eq_nil_iff.2 fun tile htile => (hall tile htile).2
      have hlt := pos_lt_pos_scanToken t
      refine ⟨trivia ++ ⟨t.pos, (t.scanToken).2.pos, stretch⟩ :: tiles, last,
        htrivia.append ⟨rfl, hlt, htiles⟩, ?_, ?_, hlast⟩
      · rw [List.forall_mem_append, List.forall_mem_cons]
        exact ⟨fun tile htile => (hall tile htile).1, hin, hall'⟩
      · rw [hevents, List.filterMap_append, htrivial, List.filterMap_cons, hevent]
        rfl

end Scanner

-- ============================================================ the result

/-- The tokens among the events of tiles are the tiles' tokens. -/
theorem tokensOf_filterMap (tiles : List Tile) :
    tokensOf (tiles.filterMap Tile.event?) = tiles.filterMap Tile.token? :=
  List.filterMap_filterMap

/-- The errors among them are the tiles' errors. -/
theorem errorsOf_filterMap (tiles : List Tile) :
    errorsOf (tiles.filterMap Tile.event?) = tiles.filterMap Tile.error? :=
  List.filterMap_filterMap

/-- A tile's token has its place and its text. -/
theorem Tile.IsIn.token {text : List Char} {tile : Tile} {t : Token} (h : tile.IsIn text)
    (ht : tile.token? = some t) :
    t.kind ≠ .eof ∧ t.start = tile.start ∧ t.stop = tile.stop
      ∧ t.lexeme = String.ofList (between text tile.start tile.stop) := by
  obtain ⟨start, stop, stretch⟩ := tile
  cases stretch with
  | token u =>
      cases ht
      exact h
  | blank | comment | badCharacter | openString => cases ht

/-- The error of a tile is about one of its own characters, or about the end
of the text where the tile stops. -/
theorem Tile.IsIn.error {text : List Char} {tile : Tile} {e : LexError} (h : tile.IsIn text)
    (he : tile.error? = some e) :
    e.offset = tile.start ∨ (tile.stop = text.length ∧ e.offset = text.length) := by
  obtain ⟨start, stop, stretch⟩ := tile
  cases stretch with
  | token | blank | comment => cases he
  | badCharacter =>
      cases he
      obtain ⟨c, -, -, -, hoffset⟩ := h
      exact .inl hoffset
  | openString =>
      cases he
      obtain ⟨-, hstop, -, hoffset⟩ := h
      exact .inr ⟨hstop, hoffset⟩

/-- The tokens of a tiling do not overlap. -/
theorem Tiles.tokens_pairwise {a b : Nat} {text : List Char} {tiles : List Tile}
    (h : Tiles a tiles b) (hall : ∀ tile ∈ tiles, tile.IsIn text) :
    (tiles.filterMap Tile.token?).Pairwise fun t u => t.stop ≤ u.start := by
  rw [List.pairwise_filterMap]
  refine h.pairwise.imp_of_mem fun {x y} hx hy hxy t ht u hu => ?_
  rw [((hall x hx).token ht).2.2.1, ((hall y hy).token hu).2.1]
  exact hxy

/-- The errors of a tiling come in the order of their offsets, and no two
have the same. -/
theorem Tiles.errors_pairwise {a : Nat} {text : List Char} {tiles : List Tile}
    (h : Tiles a tiles text.length) (hall : ∀ tile ∈ tiles, tile.IsIn text) :
    (tiles.filterMap Tile.error?).Pairwise fun e e' => e.offset < e'.offset := by
  rw [List.pairwise_filterMap]
  refine h.pairwise.imp_of_mem fun {x y} hx hy hxy e he e' he' => ?_
  have hbx := h.bounds x hx
  have hby := h.bounds y hy
  rcases (hall x hx).error he with hx' | ⟨hx', -⟩
  · rcases (hall y hy).error he' with hy' | ⟨-, hy'⟩ <;> omega
  · -- nothing comes behind a tile that reaches the end
    omega

/-- The scan of a source tiles it: token by token, blank by blank, comment by
comment, bad character by bad character and with at most one open string,
each offset lies in exactly one tile. The tokens before the end token are
those of the tiles, in order and without overlap, each with the characters
of its span; the errors are those of the tiles, in order and at different
offsets; and the end token is the last, behind the end of the source. -/
theorem scan_tiles_source (source : String) :
    ∃ tiles last,
      Tiles 0 tiles source.length
      ∧ (∀ tile ∈ tiles, tile.IsIn source.toList)
      ∧ (∀ i < source.length, ∃! tile, tile ∈ tiles ∧ tile.start ≤ i ∧ i < tile.stop)
      ∧ tokenize source = tiles.filterMap Tile.token? ++ [last]
      ∧ (tiles.filterMap Tile.token?).Pairwise (fun t u => t.stop ≤ u.start)
      ∧ (∀ t ∈ tiles.filterMap Tile.token?,
          t.kind ≠ .eof ∧ t.start < t.stop ∧ t.stop ≤ source.length
            ∧ t.lexeme = String.ofList (between source.toList t.start t.stop))
      ∧ errorsOf (scan source) = tiles.filterMap Tile.error?
      ∧ (errorsOf (scan source)).Pairwise (fun e e' => e.offset < e'.offset)
      ∧ last.kind = .eof ∧ last.start = source.length ∧ last.stop = source.length + 1 := by
  obtain ⟨tiles, last, htiles, hall, hevents, hlast⟩ :=
    Scanner.exists_tiles_events (Scanner.follows_ofSource source)
  have herrors : errorsOf (scan source) = tiles.filterMap Tile.error? := by
    unfold scan
    rw [hevents, errorsOf_append, errorsOf_filterMap]
    simp
  have htokens : tokenize source = tiles.filterMap Tile.token? ++ [last] := by
    unfold tokenize scan
    rw [hevents, tokensOf_append, tokensOf_filterMap]
    rfl
  -- order and bounds are those of the tiles
  have hordered := htiles.errors_pairwise hall
  rw [String.length_toList] at htiles hlast
  refine ⟨tiles, last, htiles, hall, fun i hi => htiles.existsUnique_mem (Nat.zero_le _) hi,
    htokens, htiles.tokens_pairwise hall, fun t ht => ?_, herrors, ?_, hlast⟩
  · obtain ⟨tile, htile, ht⟩ := List.mem_filterMap.1 ht
    obtain ⟨hkind, hstart, hstop, hlexeme⟩ := (hall tile htile).token ht
    have hbounds := htiles.bounds tile htile
    rw [hstart, hstop]
    exact ⟨hkind, hbounds.2.1, hbounds.2.2, hlexeme⟩
  · rw [herrors]
    exact hordered

end Lox

/-
Highlighting loses nothing and follows the tokens.

`Paints text a ts fragments` says what the fragments of a text are from an
offset on: one for each of the tokens, in order and in the style of its kind,
and one plain fragment for each stretch between them that is not empty. No
token starts before the offset that has been reached, so none is passed over.
Whatever is painted is all that is left of the text (`Paints.concat`) and has
no empty part (`Paints.ne_empty`).

A scan tiles its text, and along the tiles its tokens are painted
(`paints_tiles`): a tile that is no token becomes part of the plain stretch
before the next one.
-/
import Lox.Highlight
import Lox.Proofs.Tiling

namespace Lox

open Highlight (gap fragmentsFrom line)

-- ============================================================== painting

/-- `Paints text a ts fragments`: from the offset `a` on, the text is the
fragments, and the tokens are among them where they stand. -/
inductive Paints (text : List Char) : Nat → List Token → List Fragment → Prop where
  | rest (a : Nat) : Paints text a [] (gap (text.drop a))
  | token {a : Nat} {t : Token} {ts : List Token} {fragments : List Fragment} :
      a ≤ t.start → t.start < t.stop → t.stop ≤ text.length →
      t.lexeme = String.ofList (between text t.start t.stop) →
      Paints text t.stop ts fragments →
      Paints text a (t :: ts)
        (gap (between text a t.start) ++ ⟨.ofKind t.kind, t.lexeme⟩ :: fragments)

/-- The characters of some fragments. -/
def Fragment.chars (fragments : List Fragment) : List Char :=
  fragments.flatMap (·.text.toList)

/-- A gap shows the characters between two tokens. -/
theorem chars_gap (cs : List Char) : Fragment.chars (gap cs) = cs := by
  unfold gap
  split
  · next h => exact (List.isEmpty_iff.1 h).symm
  · simp [Fragment.chars]

/-- A gap of no characters has no fragment. -/
theorem ne_empty_of_mem_gap {cs : List Char} {f : Fragment} (h : f ∈ gap cs) : f.text ≠ "" := by
  unfold gap at h
  split at h
  · cases h
  · next hne =>
      rw [List.mem_singleton.1 h]
      simpa using hne

/-- A stretch and what comes after it are what comes from its start on. -/
theorem between_append {text : List Char} {a b : Nat} (h : a ≤ b) :
    between text a b ++ text.drop b = text.drop a := by
  obtain ⟨n, rfl⟩ := Nat.exists_eq_add_of_le h
  rw [between, Nat.add_sub_cancel_left, ← List.drop_drop, List.take_append_drop]

namespace Paints

variable {text : List Char} {a : Nat} {ts : List Token} {fragments : List Fragment}

/-- Nothing is lost, and nothing is there twice. -/
theorem concat (h : Paints text a ts fragments) : Fragment.chars fragments = text.drop a := by
  induction h with
  | rest a => exact chars_gap _
  | @token a t ts fragments hstart hlt _ hlexeme _ ih =>
      have hlexeme : t.lexeme.toList = between text t.start t.stop := by
        rw [hlexeme, String.toList_ofList]
      calc Fragment.chars (gap (between text a t.start) ++ ⟨.ofKind t.kind, t.lexeme⟩ :: fragments)
          = Fragment.chars (gap (between text a t.start))
              ++ (t.lexeme.toList ++ Fragment.chars fragments) := by
            simp [Fragment.chars]
        _ = between text a t.start ++ (between text t.start t.stop ++ text.drop t.stop) := by
            rw [chars_gap, hlexeme, ih]
        _ = text.drop a := by
            rw [between_append (Nat.le_of_lt hlt), between_append hstart]

/-- No fragment painted is empty. -/
theorem ne_empty (h : Paints text a ts fragments) : ∀ f ∈ fragments, f.text ≠ "" := by
  induction h with
  | rest a => exact fun f hf => ne_empty_of_mem_gap hf
  | @token a t ts fragments _ hlt hstop hlexeme _ ih =>
      rw [List.forall_mem_append, List.forall_mem_cons]
      refine ⟨fun f hf => ne_empty_of_mem_gap hf, ?_, ih⟩
      have hlength : (between text t.start t.stop).length = t.stop - t.start := by
        rw [between, List.length_take, List.length_drop]
        omega
      intro hempty
      rw [hlexeme, String.ofList_eq_empty_iff] at hempty
      rw [hempty] at hlength
      simp at hlength
      omega

end Paints

-- ============================================================ fragments

/-- What is left of a text from an offset on, behind another stretch. -/
theorem drop_sub {text : List Char} {a b : Nat} (h : a ≤ b) :
    (text.drop a).drop (b - a) = text.drop b := by
  rw [List.drop_drop]
  congr 1
  omega

/-- Behind the last token, the rest of the text is a gap. -/
theorem fragmentsFrom_end {rest : List Char} {pos : Nat} {last : Token}
    (hlast : last.kind = .eof) : fragmentsFrom rest pos [last] = gap rest := by
  simp [fragmentsFrom, hlast]

/-- A token ahead is a fragment behind the stretch up to it. -/
theorem fragmentsFrom_token {text : List Char} {pos : Nat} {t : Token} {ts : List Token}
    (hkind : t.kind ≠ .eof) (hpos : pos ≤ t.start) (hle : t.start ≤ t.stop)
    (hlexeme : t.lexeme = String.ofList (between text t.start t.stop)) :
    fragmentsFrom (text.drop pos) pos (t :: ts)
      = gap (between text pos t.start) ++ ⟨.ofKind t.kind, t.lexeme⟩ ::
          fragmentsFrom (text.drop t.stop) t.stop ts := by
  rw [fragmentsFrom, if_neg (by simp [hkind, hpos])]
  simp only [drop_sub hpos, drop_sub hle, hlexeme, between]

/-- The tokens of a tiling are painted, from anywhere before it on. -/
theorem paints_tiles {text : List Char} {a : Nat} {tiles : List Tile} {last : Token}
    (h : Tiles a tiles text.length) (hall : ∀ tile ∈ tiles, tile.IsIn text)
    (hlast : last.kind = .eof) {pos : Nat} (hpos : pos ≤ a) :
    Paints text pos (tiles.filterMap Tile.token?)
      (fragmentsFrom (text.drop pos) pos (tiles.filterMap Tile.token? ++ [last])) := by
  induction tiles generalizing a pos with
  | nil =>
      rw [List.filterMap_nil, List.nil_append, fragmentsFrom_end hlast]
      exact .rest pos
  | cons tile tiles ih =>
      have hbounds := h.bounds tile (List.mem_cons_self ..)
      obtain ⟨hstart, hlt, htiles⟩ := h
      rw [List.forall_mem_cons] at hall
      cases htoken : tile.token? with
      | none =>
          rw [List.filterMap_cons_none htoken]
          exact ih htiles hall.2 (by omega)
      | some t =>
          obtain ⟨hkind, htstart, htstop, hlexeme⟩ := hall.1.token htoken
          rw [← htstart, ← htstop] at hlexeme
          rw [List.filterMap_cons_some htoken, List.cons_append,
            fragmentsFrom_token hkind (by omega) (by omega) hlexeme]
          refine .token (by omega) (by omega) (by omega) hlexeme ?_
          exact ih htiles hall.2 (by omega)

-- =============================================================== a line

/-- `Shows text ts fragments`: the fragments are those of a line with the given
text and tokens; an empty line has one that is empty. -/
inductive Shows (text : String) (ts : List Token) (fragments : List Fragment) : Prop where
  | empty : text = "" → ts = [] → fragments = [⟨.plain, ""⟩] → Shows text ts fragments
  | painted : text ≠ "" → Paints text.toList 0 ts fragments → Shows text ts fragments

/-- The tokens of a text before the end token are those of a tiling. -/
theorem exists_tiles_tokenize (text : String) :
    ∃ tiles last, Tiles 0 tiles text.toList.length ∧ (∀ tile ∈ tiles, tile.IsIn text.toList)
      ∧ tokenize text = tiles.filterMap Tile.token? ++ [last]
      ∧ last.kind = .eof ∧ last.start = text.toList.length := by
  obtain ⟨tiles, last, htiles, hall, hevents, hlast, hstart, -⟩ :=
    Scanner.exists_tiles_events (Scanner.follows_ofSource text)
  refine ⟨tiles, last, htiles, hall, ?_, hlast, hstart⟩
  unfold tokenize scan
  rw [hevents, tokensOf_append, tokensOf_filterMap]
  rfl

/-- A line shows the tokens of its scan. -/
theorem shows_line {text : String} {ts : List Token} {last : Token}
    (hscan : tokenize text = ts ++ [last]) : Shows text ts (line text) := by
  obtain ⟨tiles, last', htiles, hall, htokens, hlast, -⟩ := exists_tiles_tokenize text
  obtain ⟨rfl, -⟩ := List.append_inj' (hscan.symm.trans htokens) rfl
  have hpaints := paints_tiles htiles hall hlast (Nat.le_refl 0)
  rw [← htokens] at hpaints
  have hconcat := hpaints.concat
  rw [List.drop_zero] at hpaints hconcat
  unfold line
  by_cases hempty : text = ""
  · subst hempty
    cases tiles with
    | nil =>
        refine .empty rfl rfl ?_
        rw [htokens, List.filterMap_nil, List.nil_append, fragmentsFrom_end hlast]
        rfl
    | cons tile tiles =>
        have := htiles.bounds tile (List.mem_cons_self ..)
        simp at this
        omega
  · refine .painted hempty ?_
    split
    · next hnil =>
        rw [hnil] at hconcat
        exact absurd (String.toList_eq_nil_iff.1 hconcat.symm) hempty
    · exact hpaints

/-- The fragments of a line make up its text. -/
theorem Shows.concat {text : String} {ts : List Token} {fragments : List Fragment}
    (h : Shows text ts fragments) : String.join (fragments.map Fragment.text) = text := by
  cases h with
  | empty htext _ hfragments =>
      rw [htext, hfragments]
      rfl
  | painted _ hpaints =>
      apply String.toList_inj.1
      rw [String.toList_join, List.flatMap_map]
      exact hpaints.concat

/-- The tokens of a scan stand one behind the other, the end token last. -/
theorem tokenize_pairwise (text : String) :
    (tokenize text).Pairwise fun t u => t.stop ≤ u.start := by
  obtain ⟨tiles, last, htiles, hall, htokens, -, hstart⟩ := exists_tiles_tokenize text
  rw [htokens, List.pairwise_append]
  refine ⟨htiles.tokens_pairwise hall, List.pairwise_singleton _ _, fun t ht u hu => ?_⟩
  obtain ⟨tile, htile, ht⟩ := List.mem_filterMap.1 ht
  rw [List.mem_singleton.1 hu, hstart, ((hall tile htile).token ht).2.2.1]
  exact (htiles.bounds tile htile).2.2

/-- Highlighting loses nothing and follows the tokens. The fragments of a text
put together are the text, and unless it is empty, none of them is. They are
the tokens before the end token, in order, each in its place with the style of
its kind, and at most one plain fragment before, between and after them; for no
token starts before the one in front of it stops. -/
theorem highlighting_follows_tokens (text : String) :
    String.join ((line text).map Fragment.text) = text
      ∧ (text ≠ "" → ∀ f ∈ line text, f.text ≠ "")
      ∧ (tokenize text).Pairwise (fun t u => t.stop ≤ u.start)
      ∧ ∃ ts last, tokenize text = ts ++ [last]
          ∧ last.kind = .eof ∧ (∀ t ∈ ts, t.kind ≠ .eof)
          ∧ Shows text ts (line text) := by
  obtain ⟨ts, last, hscan, hlast, hts⟩ := tokenize_eq text
  have hshows := shows_line hscan
  refine ⟨hshows.concat, fun hne => ?_, tokenize_pairwise text, ts, last, hscan, hlast,
    fun t ht => (hts t ht).not_eof, hshows⟩
  cases hshows with
  | empty htext => exact absurd htext hne
  | painted _ hpaints => exact hpaints.ne_empty

/-- A bad character stands in the plain fragment between two tokens, and an
open string in the one behind the last. -/
theorem highlighting_follows_tokens_around_errors :
    let text := "var @ 1 \"s"
    let fragments : List Fragment :=
      [⟨.keyword, "var"⟩, ⟨.plain, " @ "⟩, ⟨.number, "1"⟩, ⟨.plain, " \"s"⟩]
    text ≠ "" ∧ line text = fragments ∧ (∀ f ∈ line text, f.text ≠ "")
      ∧ String.join ((line text).map Fragment.text) = text := by
  intro text fragments
  have hne : text ≠ "" := by decide
  have hline : line text = fragments := by decide +kernel
  obtain ⟨hjoin, hfull, -⟩ := highlighting_follows_tokens text
  exact ⟨hne, hline, hfull hne, hjoin⟩

end Lox

/-
A document can be highlighted line by line.

# Rows

The rows of a text are what stands between its line feeds, so a text is its
last row, or a row with a line feed and more rows behind it (`rowInduction`).

# Tokens on a line

The tokens of a whole text on one of its lines are those of the row scanned
alone, further down by what stands before the row (`tokensOn_row`). That is the
composition of scans at a line feed (`tokenize_line_feed`), carried along the
rows: it asks of each row but the last that no string is open at its end.

# Requests

What has been asked for is remembered, and what is remembered is what
highlighting gives (`Document.Sound`), so a request is answered as if it were
the first (`Document.Sound.requestAll`).
-/
import Lox.Proofs.Highlighting
import Lox.Proofs.LineNumbers
import Lox.Proofs.Seam

namespace Lox

open Highlight (line documentLine Document)

-- ================================================================== rows

namespace Text

/-- Every text has a row, be it empty. -/
theorem rows_ne_nil (cs : List Char) : rows cs ≠ [] := by
  cases cs with
  | nil => exact List.cons_ne_nil _ _
  | cons c cs =>
      unfold rows
      split
      · exact List.cons_ne_nil _ _
      · split <;> exact List.cons_ne_nil _ _

/-- A text without a line feed is one row. -/
theorem rows_row {row : List Char} (h : '\n' ∉ row) : rows row = [row] := by
  induction row with
  | nil => rfl
  | cons c row ih =>
      rw [List.mem_cons, not_or] at h
      rw [rows, if_neg (Ne.symm h.1), ih h.2]

/-- A line feed ends a row, and the rows behind it follow. -/
theorem rows_append {row : List Char} (h : '\n' ∉ row) (rest : List Char) :
    rows (row ++ '\n' :: rest) = row :: rows rest := by
  induction row with
  | nil => rfl
  | cons c row ih =>
      rw [List.mem_cons, not_or] at h
      rw [List.cons_append, rows, if_neg (Ne.symm h.1), ih h.2]

/-- What holds of a row, and of a text with one more row in front, holds of all
texts. -/
theorem rowInduction {P : List Char → Prop} (last : ∀ row, '\n' ∉ row → P row)
    (step : ∀ row rest, '\n' ∉ row → P rest → P (row ++ '\n' :: rest)) (cs : List Char) :
    P cs := by
  obtain ⟨row, after, hcs, hrow, hafter⟩ := Scanner.exists_line cs
  cases after with
  | nil =>
      rw [hcs, List.append_nil]
      exact last row hrow
  | cons c rest =>
      obtain rfl := hafter c rfl
      rw [hcs]
      exact step row rest hrow (rowInduction last step rest)
termination_by cs.length
decreasing_by
  rw [hcs, List.length_append, List.length_cons]
  omega

/-- Where a row starts in its text: behind the rows before it and their line
feeds. -/
def rowStart : List (List Char) → Nat → Nat
  | row :: rows, i + 1 => row.length + 1 + rowStart rows i
  | _, _ => 0

@[simp]
theorem rowStart_zero (rows : List (List Char)) : rowStart rows 0 = 0 := by
  cases rows <;> rfl

/-- A row starts behind the row before and its line feed. -/
theorem rowStart_succ (row : List Char) (rows : List (List Char)) (i : Nat) :
    rowStart (row :: rows) (i + 1) = row.length + 1 + rowStart rows i := rfl

/-- A row stands in its text where it starts. -/
theorem between_rowStart {cs : List Char} {i : Nat} {row : List Char}
    (h : (rows cs)[i]? = some row) :
    between cs (rowStart (rows cs) i) (rowStart (rows cs) i + row.length) = row := by
  rw [between, Nat.add_sub_cancel_left]
  induction cs using rowInduction generalizing i with
  | last only honly =>
      rw [rows_row honly] at h ⊢
      cases i with
      | zero =>
          obtain rfl := Option.some.inj h
          exact List.take_length
      | succ i => cases h
  | step first rest hfirst ih =>
      rw [rows_append hfirst] at h ⊢
      cases i with
      | zero =>
          obtain rfl := Option.some.inj h
          exact List.take_left
      | succ i =>
          rw [rowStart_succ, Nat.add_assoc, List.drop_length_add_append, Nat.add_comm 1,
            List.drop_succ_cons]
          exact ih h

end Text

-- ======================================================== tokens on a line

/-- The tokens of a text, the end token apart, that are on a line. -/
def tokensOn (text : String) (line : Nat) : List Token :=
  (tokenize text).filter fun t => t.kind ≠ .eof ∧ t.line = line

/-- Alone, a text leaves no string open. -/
def Closed (cs : List Char) : Prop :=
  ∀ e ∈ errorsOf (scan (String.ofList cs)), e.fault ≠ .unterminatedString

instance (cs : List Char) : Decidable (Closed cs) :=
  inferInstanceAs (Decidable (∀ e ∈ errorsOf (scan (String.ofList cs)), _))

/-- To move a token twice is to move it once by the sum. -/
theorem Token.shift_shift (t : Token) (chars lines chars' lines' : Nat) :
    (t.shift chars lines).shift chars' lines' = t.shift (chars' + chars) (lines + lines') := by
  simp only [Token.shift, Nat.add_assoc, Nat.add_comm chars', Int.add_assoc, Int.natCast_add]

/-- The first row is where it is alone. -/
theorem map_shift_zero (rows : List (List Char)) (ts : List Token) :
    ts.map (Token.shift (Text.rowStart rows 0) 0) = ts := by
  have hshift (t : Token) : t.shift (Text.rowStart rows 0) 0 = t := by
    simp [Token.shift]
  rw [List.map_congr_left fun t _ => hshift t, List.map_id']

/-- Lines are counted from one. -/
theorem one_le_line {text : String} {t : Token} (h : t ∈ tokenize text) : 1 ≤ t.line := by
  rw [line_of_mem_tokenize h, lineAt]
  omega

/-- A text of one row has its tokens on the first line. -/
theorem line_of_row {row : List Char} (hrow : '\n' ∉ row) {t : Token}
    (h : t ∈ tokenize (String.ofList row)) : t.line = 1 := by
  rw [line_of_mem_tokenize h, lineAt, String.toList_ofList,
    List.count_eq_zero.2 fun hmem => hrow (List.mem_of_mem_take hmem)]
  rfl

/-- The one row of a text without a line feed has all its tokens. -/
theorem tokensOn_one {row : List Char} (hrow : '\n' ∉ row) {ts : List Token} {last : Token}
    (hts : tokenize (String.ofList row) = ts ++ [last]) (hlast : last.kind = .eof)
    (hkinds : ∀ t ∈ ts, t.kind ≠ .eof) : tokensOn (String.ofList row) 1 = ts := by
  unfold tokensOn
  rw [hts, List.filter_append, List.filter_cons_of_neg (by simp [hlast]), List.filter_nil,
    List.append_nil, List.filter_eq_self]
  intro t ht
  have hline : t.line = 1 := line_of_row hrow (hts ▸ List.mem_append_left _ ht)
  simpa using ⟨hkinds t ht, hline⟩

section

variable {row rest : List Char} (hrow : '\n' ∉ row) (hclosed : Closed row) {ts : List Token}
  {last : Token} (hts : tokenize (String.ofList row) = ts ++ [last])

include hrow hclosed hts

/-- A row in front puts its tokens before all others, which come to be one line
further down. -/
theorem tokenize_row :
    tokenize (String.ofList (row ++ '\n' :: rest))
      = ts ++ (tokenize (String.ofList rest)).map (Token.shift (row.length + 1) 1) := by
  have hjoined : String.ofList (row ++ '\n' :: rest)
      = String.ofList row ++ "\n" ++ String.ofList rest := by
    apply String.toList_inj.1
    simp
  rw [hjoined, tokenize_line_feed hts hclosed, String.length_ofList, String.toList_ofList,
    List.count_eq_zero.2 hrow]

/-- The tokens of the first of several rows. -/
theorem tokensOn_first (hkinds : ∀ t ∈ ts, t.kind ≠ .eof) :
    tokensOn (String.ofList (row ++ '\n' :: rest)) 1 = ts := by
  unfold tokensOn
  rw [tokenize_row hrow hclosed hts, List.filter_append, List.filter_eq_self.2,
    List.filter_eq_nil_iff.2, List.append_nil]
  · rw [List.forall_mem_map]
    intro t ht hkept
    have hle := one_le_line ht
    have hline : t.line + 1 = 1 := (of_decide_eq_true hkept).2
    omega
  · intro t ht
    have hline : t.line = 1 := line_of_row hrow (hts ▸ List.mem_append_left _ ht)
    simpa using ⟨hkinds t ht, hline⟩

/-- The tokens of a later row are those of the text behind the first. -/
theorem tokensOn_later (n : Nat) :
    tokensOn (String.ofList (row ++ '\n' :: rest)) (n + 2)
      = (tokensOn (String.ofList rest) (n + 1)).map (Token.shift (row.length + 1) 1) := by
  unfold tokensOn
  rw [tokenize_row hrow hclosed hts, List.filter_append, List.filter_eq_nil_iff.2,
    List.nil_append, List.filter_map]
  · congr 1
    refine List.filter_congr fun t _ => ?_
    have hline : t.line + 1 = (n + 2 : Nat) ↔ t.line = (n + 1 : Nat) := by omega
    exact decide_eq_decide.2 (and_congr_right fun _ => hline)
  · intro t ht hkept
    have hline : t.line = 1 := line_of_row hrow (hts ▸ List.mem_append_left _ ht)
    have hline' : t.line = (n + 2 : Nat) := (of_decide_eq_true hkept).2
    omega

end

/-- The tokens on a line of a text are those of the row alone, as much further
down as the row starts, if no row before the last leaves a string open. -/
theorem tokensOn_row {cs : List Char} (hclosed : ∀ row ∈ (Text.rows cs).dropLast, Closed row)
    {i : Nat} {row : List Char} (hrow : (Text.rows cs)[i]? = some row) {ts : List Token}
    {last : Token} (hts : tokenize (String.ofList row) = ts ++ [last]) (hlast : last.kind = .eof)
    (hkinds : ∀ t ∈ ts, t.kind ≠ .eof) :
    tokensOn (String.ofList cs) (i + 1)
      = ts.map (Token.shift (Text.rowStart (Text.rows cs) i) i) := by
  induction cs using Text.rowInduction generalizing i with
  | last only honly =>
      rw [Text.rows_row honly] at hrow ⊢
      obtain ⟨rfl, rfl⟩ : i = 0 ∧ only = row := by
        cases i with
        | zero => exact ⟨rfl, Option.some.inj hrow⟩
        | succ i => cases hrow
      rw [tokensOn_one honly hts hlast hkinds]
      exact (map_shift_zero _ ts).symm
  | step first rest hfirst ih =>
      rw [Text.rows_append hfirst] at hclosed hrow ⊢
      rw [List.dropLast_cons_of_ne_nil (Text.rows_ne_nil rest), List.forall_mem_cons] at hclosed
      cases i with
      | zero =>
          obtain rfl := Option.some.inj hrow
          rw [tokensOn_first hfirst hclosed.1 hts hkinds]
          exact (map_shift_zero _ ts).symm
      | succ i =>
          obtain ⟨ts', last', hts', -⟩ := tokenize_eq (String.ofList first)
          rw [tokensOn_later hfirst hclosed.1 hts', ih hclosed.2 hrow, List.map_map,
            Text.rowStart_succ]
          exact List.map_congr_left fun t _ => t.shift_shift _ _ _ _

-- =============================================================== requests

namespace Highlight.Document

/-- What is known of a document is what highlighting its lines gives. -/
def Sound (d : Document) : Prop :=
  ∀ index fragments, d.known.lookup index = some fragments → d.highlight index = .ok fragments

/-- A document without a cache is sound. -/
theorem sound_ofText (text : String) : (ofText text).Sound := by
  intro index fragments h
  cases h

/-- A request is answered with the fragments of its line, and what it adds to
what is known is sound. -/
theorem Sound.request {d : Document} (h : d.Sound) (index : Int) :
    (d.request index).1 = d.highlight index
      ∧ (d.request index).2.Sound ∧ (d.request index).2.rows = d.rows := by
  unfold Document.request
  cases hknown : d.known.lookup index with
  | some fragments => exact ⟨(h index fragments hknown).symm, h, rfl⟩
  | none =>
      cases hfresh : d.highlight index with
      | error fault => exact ⟨rfl, h, rfl⟩
      | ok fragments =>
          refine ⟨rfl, fun index' fragments' hlookup => ?_, rfl⟩
          dsimp only at hlookup
          rw [List.lookup_cons] at hlookup
          by_cases heq : index' = index
          · subst heq
            rw [beq_self_eq_true] at hlookup
            cases hlookup
            exact hfresh
          · rw [beq_false_of_ne heq] at hlookup
            exact h index' fragments' hlookup

/-- What is shown depends on the rows alone. -/
theorem highlight_congr {d d' : Document} (h : d.rows = d'.rows) (index : Int) :
    d.highlight index = d'.highlight index := by
  unfold highlight
  rw [h]

/-- Requests are answered alike in whatever order they come. -/
theorem Sound.requestAll {d : Document} (h : d.Sound) (requests : List Int) :
    d.requestAll requests = requests.map d.highlight := by
  induction requests generalizing d with
  | nil => rfl
  | cons index rest ih =>
      obtain ⟨hanswer, hsound, hrows⟩ := h.request index
      rw [Document.requestAll, hanswer, ih hsound, List.map_cons]
      exact congrArg _ (List.map_congr_left fun i _ => highlight_congr hrows i)

end Highlight.Document

namespace Highlight

/-- A line on its own is shown as that of a new document. -/
theorem documentLine_eq (text : String) (index : Int) :
    documentLine text index = (Document.ofText text).highlight index :=
  ((Document.sound_ofText text).request index).1

/-- From zero on, an index is that of a row. -/
theorem documentLine_row {text : String} {i : Nat} {row : List Char}
    (h : (Text.rows text.toList)[i]? = some row) :
    documentLine text i = .ok (line (String.ofList row)) := by
  have hlt : i < (Text.rows text.toList).length := (List.getElem?_eq_some_iff.1 h).1
  rw [documentLine_eq, Document.highlight, if_neg, Document.ofText, Text.atIndex_natCast h]
  · rfl
  · have : ((Document.ofText text).rows.length : Int) = (Text.rows text.toList).length := rfl
    omega

end Highlight

-- ============================================================= the result

/-- A document can be highlighted line by line. Requests for its lines, in any
order and however often, are answered alike, each with the fragments of its
row. If no row but the last, scanned alone, leaves a string open, then these
fragments show the tokens that the scan of the whole document has on the line,
as much further up as the row is from the start. -/
theorem document_highlighted_by_line (text : String) :
    let rows := Text.rows text.toList
    (∀ requests : List Int, (Document.ofText text).requestAll requests
        = requests.map (documentLine text))
      ∧ (∀ (i : Nat) row, rows[i]? = some row →
          documentLine text i = .ok (line (String.ofList row))
            ∧ between text.toList (Text.rowStart rows i) (Text.rowStart rows i + row.length) = row)
      ∧ ((∀ row ∈ rows.dropLast, Closed row) →
          ∀ (i : Nat) row, rows[i]? = some row →
            ∃ ts, tokensOn text (i + 1) = ts.map (Token.shift (Text.rowStart rows i) i)
              ∧ ∃ fragments, documentLine text i = .ok fragments
                  ∧ Shows (String.ofList row) ts fragments) := by
  intro rows
  refine ⟨fun requests => ?_, fun i row hrow =>
    ⟨Highlight.documentLine_row hrow, Text.between_rowStart hrow⟩, fun hclosed i row hrow => ?_⟩
  · rw [(Document.sound_ofText text).requestAll]
    exact List.map_congr_left fun index _ => (Highlight.documentLine_eq text index).symm
  · obtain ⟨ts, last, hts, hlast, hkinds⟩ := tokenize_eq (String.ofList row)
    have htokens := tokensOn_row hclosed hrow hts hlast fun t ht => (hkinds t ht).not_eof
    rw [String.ofList_toList] at htokens
    exact ⟨ts, htokens, _, Highlight.documentLine_row hrow, shows_line hts⟩

/-- A quote in a comment opens no string for the rows behind it, and in the last
row one may be open. -/
theorem document_highlighted_by_line_at_quotes :
    let text := "a // \"\n\n\"s\" = 1\n\"t"
    let rows := Text.rows text.toList
    (∀ row ∈ rows.dropLast, Closed row)
      ∧ rows[2]? = some "\"s\" = 1".toList
      ∧ (Document.ofText text).requestAll [2, 0, 2] = [2, 0, 2].map (documentLine text)
      ∧ documentLine text 2
          = .ok [⟨.string, "\"s\""⟩, ⟨.plain, " "⟩, ⟨.plain, "="⟩, ⟨.plain, " "⟩, ⟨.number, "1"⟩]
      ∧ ∃ ts, tokensOn text 3 = ts.map (Token.shift 8 2)
          ∧ Shows "\"s\" = 1" ts (line "\"s\" = 1") := by
  intro text rows
  have hclosed : ∀ row ∈ rows.dropLast, Closed row := by decide +kernel
  have hrow : rows[2]? = some "\"s\" = 1".toList := by decide +kernel
  have hstart : Text.rowStart rows 2 = 8 := by decide +kernel
  obtain ⟨hrequests, hlines, htokens⟩ := document_highlighted_by_line text
  obtain ⟨ts, hts, fragments, hfragments, hshows⟩ := htokens hclosed 2 _ hrow
  have hline := (hlines 2 _ hrow).1
  have hhighlighted : line "\"s\" = 1"
      = [⟨.string, "\"s\""⟩, ⟨.plain, " "⟩, ⟨.plain, "="⟩, ⟨.plain, " "⟩, ⟨.number, "1"⟩] := by
    decide +kernel
  have hsame : fragments = line "\"s\" = 1" := Except.ok.inj (hfragments.symm.trans hline)
  rw [hsame] at hshows
  rw [hstart] at hts
  exact ⟨hclosed, hrow, hrequests [2, 0, 2], hline.trans (congrArg _ hhighlighted), ts, hts, hshows⟩

end Lox

/-
Counting braces agrees with parsing blocks.

# Open blocks

The statement parser keeps the blocks that are open. `openBlocks` follows it
to where it stops and gives what is open there: nothing at the end of a
program, and the blocks that still wait for their closing brace where a
statement is rejected.

# The count

The prompt counts braces and knows no grammar. The count is in step with the
parser: the tokens of a statement leave it as it is (`balanced_of_statement`),
and every turn of the parser takes tokens that change it as the number of
open blocks changes (`Moves.depth`). So after any number of turns it is that
number (`Sourced.depth_statementIn`). A parse that stops because a block is
not closed has come to the end token, so the count over what it has read is
the count over the whole text.

The count never falls below zero while the parser goes on, because a closing
brace is only taken for a block that is open. Where the parser rejects a text
for another reason, the two need not agree.
-/
import Lox.Prompt.Entry
import Lox.Proofs.Diagnostics
import Lox.Proofs.ErrorSet

namespace Lox

open Grammar (Level Derives Expression Statement Statements)
open Prompt (countBrace braceDepth normalize)

-- ============================================================ open blocks

namespace Cursor

/-- The blocks that are open where the parse of a statement ends, from those
open at first. -/
def openIn (blocks : OpenBlocks) (c : Cursor) : OpenBlocks :=
  match _h : c.turn blocks with
  | .done _ => blocks
  | .more blocks' c' => openIn blocks' c'
termination_by c.pending.length
decreasing_by
  have hlt := within_turn c blocks
  rw [_h] at hlt
  exact hlt

/-- The blocks that are open where the parse of a program stops. -/
def openBlocks (c : Cursor) : OpenBlocks :=
  match _h : (c.programStep).1 with
  | none => []
  | some (.error _) => openIn [] c
  | some (.ok _) => openBlocks (c.programStep).2
termination_by c.pending.length
decreasing_by exact length_programStep_lt _h

/-- A statement that is over has left the blocks open that were open. -/
theorem openIn_done {blocks : OpenBlocks} {c : Cursor} {r : Parsed Node}
    (h : c.turn blocks = .done r) : openIn blocks c = blocks := by
  rw [openIn]
  split
  · rfl
  · next hmore => rw [h] at hmore; cases hmore

/-- Otherwise the blocks of its next turn count. -/
theorem openIn_more {blocks blocks' : OpenBlocks} {c c' : Cursor}
    (h : c.turn blocks = .more blocks' c') : openIn blocks c = openIn blocks' c' := by
  rw [openIn]
  split
  · next hdone => rw [h] at hdone; cases hdone
  · next hmore =>
      rw [h] at hmore
      cases hmore
      rfl

/-- The open blocks of a text are those of its first statement that fails. -/
theorem openBlocks_eq (c : Cursor) :
    c.openBlocks = match c.programStep with
      | (none, _) => []
      | (some (.error _), _) => openIn [] c
      | (some (.ok _), c') => c'.openBlocks := by
  rw [openBlocks]
  split
  · next h => rw [(Prod.ext h rfl : c.programStep = (none, (c.programStep).2))]
  · next f h => rw [(Prod.ext h rfl : c.programStep = (some (.error f), (c.programStep).2))]
  · next n h => rw [(Prod.ext h rfl : c.programStep = (some (.ok n), (c.programStep).2))]

end Cursor

-- ============================================================== the count

def Kind.isBrace (k : Kind) : Bool :=
  k = .leftBrace || k = .rightBrace

/-- Tokens that leave the count of open braces as it is, whatever it is. -/
def Balanced (ts : List Token) : Prop :=
  ∀ depth, ts.foldl countBrace depth = depth

theorem countBrace_opening {t : Token} (h : t.kind = .leftBrace) (depth : Nat) :
    countBrace depth t = depth + 1 := by
  simp [countBrace, h]

theorem countBrace_closing {t : Token} (h : t.kind = .rightBrace) (depth : Nat) :
    countBrace depth t = depth - 1 := by
  simp [countBrace, h]

theorem countBrace_other {t : Token} (h : t.kind.isBrace = false) (depth : Nat) :
    countBrace depth t = depth := by
  unfold countBrace
  split
  · next hk => rw [hk] at h; cases h
  · next hk => rw [hk] at h; cases h
  · rfl

namespace Balanced

theorem nil : Balanced [] :=
  fun _ => rfl

/-- A token that is no brace does not change the balance. -/
theorem cons {t : Token} {ts : List Token} (ht : t.kind.isBrace = false) (h : Balanced ts) :
    Balanced (t :: ts) := by
  intro depth
  rw [List.foldl_cons, countBrace_other ht]
  exact h depth

/-- Balanced parts make a balanced whole. -/
theorem append {us vs : List Token} (hus : Balanced us) (hvs : Balanced vs) :
    Balanced (us ++ vs) := by
  intro depth
  rw [List.foldl_append, hus, hvs]

/-- Braces around balanced tokens are balanced. -/
theorem enclosed {first last : Token} {ts : List Token} (hfirst : first.kind = .leftBrace)
    (h : Balanced ts) (hlast : last.kind = .rightBrace) : Balanced (first :: (ts ++ [last])) := by
  intro depth
  rw [List.foldl_cons, countBrace_opening hfirst, List.foldl_append, h, List.foldl_cons,
    countBrace_closing hlast]
  rfl

end Balanced

/-- There are no braces in an expression. -/
theorem balanced_of_derives {l : Level} {ts : List Token} {e : Node} (h : Derives l ts e) :
    Balanced ts := by
  induction h with
  | assignment hx heq _ ih => exact .cons (by rw [hx]; rfl) (.cons (by rw [heq]; rfl) ih)
  | @binary l op t us vs left right hop _ _ ihl ihr =>
      refine .append ihl (.cons ?_ ihr)
      generalize t.kind = k at hop
      cases k <;> first | rfl | cases hop
  | @unary op t ts operand hop _ ih =>
      refine .cons ?_ ih
      generalize t.kind = k at hop
      cases k <;> first | rfl | cases hop
  | @literal t v hv =>
      refine .cons ?_ .nil
      unfold Grammar.literal? at hv
      generalize t.kind = k at hv
      cases k <;> first | rfl | cases hv
  | name hx => exact .cons (by rw [hx]; rfl) .nil
  | group hl hr _ ih =>
      exact .cons (by rw [hl]; rfl) (.append ih (.cons (by rw [hr]; rfl) .nil))
  | tighter _ ih => exact ih

/-- An expression and the semicolon behind it. -/
theorem balanced_ended {ts : List Token} {e : Node} {last : Token} (he : Expression ts e)
    (hlast : last.kind = .semicolon) : Balanced (ts ++ [last]) :=
  .append (balanced_of_derives he) (.cons (by rw [hlast]; rfl) .nil)

mutual

/-- A statement closes the braces that it opens, and no others. -/
theorem balanced_of_statement {ts : List Token} {n : Node} : Statement ts n → Balanced ts
  | .print hk he hz => .cons (by rw [hk]; rfl) (balanced_ended he hz)
  | .declare hk hx hz =>
      .cons (by rw [hk]; rfl) (.cons (by rw [hx]; rfl) (.cons (by rw [hz]; rfl) .nil))
  | .define hk hx heq he hz =>
      .cons (by rw [hk]; rfl) (.cons (by rw [hx]; rfl) (.cons (by rw [heq]; rfl)
        (balanced_ended he hz)))
  | .block hfirst hss hlast => .enclosed hfirst (balanced_of_statements hss) hlast
  | .assign he hz => balanced_ended he hz
  | .expression he _ hz => balanced_ended he hz

theorem balanced_of_statements {ts : List Token} {ss : List Node} : Statements ts ss → Balanced ts
  | .nil => .nil
  | .cons hs hss => .append (balanced_of_statement hs) (balanced_of_statements hss)

end

-- ====================================================== count and parser

namespace Cursor

/-- A turn that goes on takes tokens over which the count moves from the
number of blocks open before to that of those open after it. -/
theorem Moves.depth {c c' : Cursor} {blocks blocks' : OpenBlocks}
    (h : c.Moves blocks (.more blocks' c')) :
    ∃ ts, c.Takes ts c' ∧ ts.foldl countBrace blocks.length = blocks'.length := by
  cases h with
  | opened ht htakes => exact ⟨_, htakes, countBrace_opening ht _⟩
  | member hs htakes => exact ⟨_, htakes, balanced_of_statement hs _⟩
  | inner ht htakes => exact ⟨_, htakes, countBrace_closing ht _⟩

/-- Inside a statement that is no block, no brace is missed. -/
theorem begin_ne_braceAfterBlock {c c' : Cursor} {t u : Token} {blocks : OpenBlocks} :
    c.begin t blocks ≠ .done (.error (.rejected .braceAfterBlock (some u)), c') := by
  intro h
  have hregular := c.simple_regular t.kind
  unfold begin at h
  split at h
  · cases h
  · split at h
    · cases blocks <;> cases h
    · next hsimple =>
        cases h
        have hinner := hregular .braceAfterBlock u (congrArg Prod.fst hsimple)
        cases hinner

/-- The brace that closes a block is missed at the end token only, with a
block open. -/
theorem turn_braceAfterBlock {c c' : Cursor} {blocks : OpenBlocks} {u : Token}
    (h : c.turn blocks = .done (.error (.rejected .braceAfterBlock (some u)), c')) :
    blocks ≠ [] ∧ c.settle.front? = some u ∧ u.kind = .eof := by
  unfold turn at h
  dsimp only at h
  split at h
  · cases h
  · cases h
  · exact absurd h begin_ne_braceAfterBlock
  · next t ss outer hfront =>
      split at h
      · cases outer <;> cases h
      · split at h
        · next ht =>
            cases h
            exact ⟨List.cons_ne_nil _ _, hfront, ht⟩
        · exact absurd h begin_ne_braceAfterBlock

/-- Where a statement fails for a block that is not closed, the count over
all tokens from its start on is the number of blocks open at the failure. -/
theorem Sourced.depth_statementIn {c : Cursor} (hc : c.Sourced) {blocks : OpenBlocks} {u : Token}
    (h : (statementIn blocks c).1 = .error (.rejected .braceAfterBlock (some u))) :
    openIn blocks c ≠ []
      ∧ (tokensOf c.pending).foldl countBrace blocks.length = (openIn blocks c).length := by
  fun_induction statementIn blocks c with
  | case1 blocks c r hturn =>
      obtain ⟨hne, hfront, hu⟩ :=
        turn_braceAfterBlock (hturn.trans (congrArg Turn.done (Prod.ext h rfl)))
      have hend : c.AtEnd := fun t ht => by
        rw [hfront] at ht
        rw [← Option.some.inj ht, hu]
      obtain ⟨last, hlast, hkind⟩ := hc.tokens_atEnd hend
      rw [openIn_done hturn, hlast]
      exact ⟨hne, countBrace_other (by rw [hkind]; rfl) _⟩
  | case2 blocks c blocks' c' hturn ih =>
      have hmoves := turn_moves c blocks
      rw [hturn] at hmoves
      obtain ⟨ts, htakes, hdepth⟩ := hmoves.depth
      rw [openIn_more hturn, htakes.tokens, List.foldl_append, hdepth]
      exact ih (hc.turn_more hturn) h

/-- The same of a program: the statements before the failure count for
nothing. -/
theorem Sourced.depth_program {c : Cursor} (hc : c.Sourced) {u : Token}
    (h : c.program.2.1 = some (.rejected .braceAfterBlock (some u))) :
    c.openBlocks ≠ [] ∧ (tokensOf c.pending).foldl countBrace 0 = c.openBlocks.length := by
  fun_induction program c with
  | case1 c hstep => cases h
  | case2 c failure hstep =>
      have hfailed : c.programStep = (some (.error failure), (c.programStep).2) :=
        Prod.ext hstep rfl
      obtain ⟨-, hstatement⟩ := programStep_error hfailed
      rw [openBlocks_eq, hfailed]
      cases h
      exact hc.depth_statementIn (congrArg Prod.fst hstatement)
  | case3 c n hstep ns failure after hrest ih =>
      have hparsed : c.programStep = (some (.ok n), (c.programStep).2) := Prod.ext hstep rfl
      obtain ⟨ts, hs, htakes⟩ := programStep_eq_ok_iff.1 hparsed
      rw [openBlocks_eq, hparsed, htakes.tokens, List.foldl_append, balanced_of_statement hs]
      exact ih (hc.statement hs htakes) (by rw [hrest]; exact h)

end Cursor

-- ============================================================= the result

namespace Prompt

/-- A text that parses as a program, or as an expression up to its end. -/
def IsComplete (text : String) : Prop :=
  (Cursor.ofSource text).program.2.1 = none
    ∨ ∃ e c z, (Cursor.ofSource text).expression = (.ok e, c) ∧ (c.look).1 = some z
        ∧ z.kind = .eof

/-- A text that is rejected as a program because a block is not closed. -/
def IsUnclosed (text : String) : Prop :=
  ∃ fault u, (Cursor.ofSource text).program.2.1 = some (.rejected fault u)
    ∧ fault.message = r"Expected '}' after block"

/-- No other fault has that message. -/
theorem eq_braceAfterBlock_of_message {fault : SyntaxFault}
    (h : fault.message = r"Expected '}' after block") : fault = .braceAfterBlock := by
  cases fault with
  | braceAfterBlock => rfl
  | operandExpected lexeme | operatorExpected lexeme =>
      have hbegins : "Unexpected token '".toList <+: r"Expected '}' after block".toList := by
        rw [← h]
        exact begins_append (begins_append (List.prefix_refl _) lexeme) _
      exact absurd hbegins (by decide +kernel)
  | _ => exact absurd h (by decide)

/-- The tokens of a text whose braces are balanced up to the end token. -/
theorem braceDepth_of_balanced {text : String} {ts : List Token} {last : Token}
    (h : tokenize text = ts ++ [last]) (hts : Balanced ts) (hlast : last.kind = .eof) :
    braceDepth text = 0 := by
  rw [braceDepth, h, List.foldl_append, hts]
  exact countBrace_other (by rw [hlast]; rfl) 0

/-- In a complete text no brace is open. -/
theorem IsComplete.braceDepth {text : String} (h : IsComplete text) : braceDepth text = 0 := by
  have hsourced := Cursor.sourced_ofSource text
  rcases h with hparse | ⟨e, c, z, hexpression, hlook, hz⟩
  · obtain ⟨ts, last, -, htokens, hlast, hss, -⟩ := Cursor.program_finished hparse
    exact braceDepth_of_balanced htokens (balanced_of_statements hss) hlast
  · have hend : c.AtEnd := fun t ht => by
      rw [Option.some.inj (ht.symm.trans hlook), hz]
    obtain ⟨last, hrest, hlast⟩ := (hsourced.expression hexpression).tokens_atEnd hend
    obtain ⟨before, z', after, hpending, -, he, rfl⟩ := expression_eq_ok_iff.1 hexpression
    have htokens : tokenize text = tokensOf before ++ [last] := by
      rw [← hrest, ← tokensOf_append, ← hpending]
      rfl
    exact braceDepth_of_balanced htokens (balanced_of_derives he) hlast

/-- In an unclosed text, the depth is the number of open blocks, and there is
one at least. -/
theorem IsUnclosed.braceDepth {text : String} (h : IsUnclosed text) :
    braceDepth text = (Cursor.ofSource text).openBlocks.length
      ∧ 1 ≤ (Cursor.ofSource text).openBlocks.length := by
  have hsourced := Cursor.sourced_ofSource text
  obtain ⟨fault, u, hfailure, hmessage⟩ := h
  obtain rfl := eq_braceAfterBlock_of_message hmessage
  obtain ⟨fault, t, hrejected⟩ := hsourced.program_rejected hfailure
  cases hrejected
  obtain ⟨hne, hdepth⟩ := hsourced.depth_program hfailure
  exact ⟨hdepth, List.length_pos_iff.2 hne⟩

/-- The Enter key submits a text exactly if no brace is open in it. -/
theorem press_enter (e : Editor) :
    e.press .enter
      = if braceDepth e.text = 0 then { text := e.text, isSubmitted := true }
        else { text := e.text ++ "\n" ++ indentation (braceDepth e.text) } := rfl

/-- The prompt's count of open braces agrees with the parser. It is zero for
every text that parses, as a program or as an expression up to its end. For
a text that is rejected because a block is not closed it is the number of
blocks that are open there, at least one. So the Enter key, on text without
invisible characters, submits what is complete and holds back what only
waits for a block to be closed. -/
theorem braceDepth_agrees_with_parse (text : String) :
    (IsComplete text → braceDepth text = 0)
      ∧ (IsUnclosed text →
          braceDepth text = (Cursor.ofSource text).openBlocks.length
            ∧ 1 ≤ (Cursor.ofSource text).openBlocks.length)
      ∧ (∀ e : Editor, e.text = text → normalize text = text →
          (IsComplete (normalize text) →
              (e.press .enter).isSubmitted = true ∧ (e.press .enter).text = text)
            ∧ (IsUnclosed (normalize text) → (e.press .enter).isSubmitted = false)) := by
  refine ⟨IsComplete.braceDepth, IsUnclosed.braceDepth, ?_⟩
  rintro e rfl hnormal
  rw [hnormal, press_enter]
  refine ⟨fun hcomplete => ?_, fun hunclosed => ?_⟩
  · rw [if_pos hcomplete.braceDepth]
    exact ⟨rfl, rfl⟩
  · obtain ⟨hdepth, hopen⟩ := hunclosed.braceDepth
    rw [if_neg (by omega)]

/-- Of two blocks one is closed, and the brace in the string counts for
nothing; closing the other makes the text complete. -/
theorem braceDepth_of_texts :
    let waiting := r#"{ { print "}"; }"#
    let complete := waiting ++ r"}"
    (IsUnclosed waiting ∧ braceDepth waiting = 1
        ∧ 1 ≤ (Cursor.ofSource waiting).openBlocks.length
        ∧ (({ text := waiting } : Editor).press .enter).isSubmitted = false)
      ∧ IsComplete complete ∧ braceDepth complete = 0
        ∧ (({ text := complete } : Editor).press .enter).isSubmitted = true := by
  intro waiting complete
  have hwaiting : IsUnclosed waiting :=
    ⟨.braceAfterBlock, some { kind := .eof, lexeme := "", start := 16, stop := 17 },
      by decide +kernel, rfl⟩
  have hcomplete : IsComplete complete := .inl (by decide +kernel)
  have hnormal : normalize waiting = waiting ∧ normalize complete = complete := by decide +kernel
  obtain ⟨-, hdepth, henter⟩ := braceDepth_agrees_with_parse waiting
  obtain ⟨hzero, -, henter'⟩ := braceDepth_agrees_with_parse complete
  refine ⟨⟨hwaiting, by decide +kernel, (hdepth hwaiting).2, ?_⟩, hcomplete, hzero hcomplete, ?_⟩
  · refine (henter { text := waiting } rfl hnormal.1).2 ?_
    rwa [hnormal.1]
  · refine ((henter' { text := complete } rfl hnormal.2).1 ?_).1
    rwa [hnormal.2]

end Prompt

end Lox

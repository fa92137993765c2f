/-
A program entered at the prompt runs as that program.

# The choice

The prompt runs an entry as statements if its last character that is not
blank is a semicolon or a closing brace. It does not scan the text for that.
The tokens agree as long as nothing but blanks stands behind the last of
them: the last token of a program is a semicolon or a closing brace
(`last_of_statements`), such a token has one character (`lexeme_of_kind`),
and with blanks behind it that character is the one the prompt looks at
(`isStatementText_append`). A comment or a bad character behind the last
statement hides it, and then the prompt takes the text for an expression.

# The run

Once chosen, statements run at the prompt as they run elsewhere. What differs
is how lexical errors are told of, which shows neither in the variables nor
on standard output.
-/
import Lox.Prompt.Session
import Lox.Proofs.Diagnostics
import Lox.Proofs.Layout
import Lox.Proofs.Tiling

namespace Lox

open Grammar (Statement Statements)
open Prompt (isStatementText)

-- ======================================================= the last character

/-- With blanks behind it, a character that is not blank is the last that is
looked at. -/
theorem Prompt.isStatementText_append {text : String} {front blanks : List Char} {c : Char}
    (h : text.toList = front ++ c :: blanks) (hblanks : ∀ b ∈ blanks, Text.isBlank b = true)
    (hc : c = ';' ∨ c = '}') : isStatementText text = true := by
  have hvisible : Text.isBlank c = false := by
    rcases hc with rfl | rfl <;> decide
  have hstrip : Text.stripRight text.toList = front ++ [c] := by
    have hreverse : ∀ b ∈ blanks.reverse, Text.isBlank b = true := by
      simpa using hblanks
    rw [Text.stripRight, h, List.reverse_append, List.reverse_cons, List.append_assoc,
      List.dropWhile_append_of_pos hreverse, List.singleton_append, List.dropWhile_cons, hvisible]
    simp
  unfold isStatementText
  rw [hstrip, List.getLast?_concat]
  rcases hc with rfl | rfl <;> decide

-- =========================================================== the last token

/-- Statements end in a semicolon or a closing brace. -/
theorem last_of_statements {ts : List Token} {ss : List Node} (h : Statements ts ss)
    (hne : ss ≠ []) :
    ∃ us z, ts = us ++ [z] ∧ (z.kind = .semicolon ∨ z.kind = .rightBrace) := by
  induction ss generalizing ts with
  | nil => exact absurd rfl hne
  | cons s ss ih =>
      cases h with
      | @cons us vs _ _ hs hss =>
          cases ss with
          | nil =>
              cases hss
              rw [List.append_nil]
              exact Cursor.last_of_statement hs
          | cons s' ss =>
              obtain ⟨ws, z, rfl, hz⟩ := ih hss (List.cons_ne_nil _ _)
              exact ⟨us ++ ws, z, (List.append_assoc _ _ _).symm, hz⟩

/-- A semicolon and a closing brace are single characters. -/
theorem Scanner.take_of_symbol {cs : List Char} {kind : Kind} {n : Nat}
    (h : symbol? cs = some (kind, n)) :
    (kind = .semicolon → cs.take n = [';']) ∧ (kind = .rightBrace → cs.take n = ['}']) := by
  unfold symbol? at h
  split at h <;> cases h <;> simp

/-- The characters of a semicolon and of a closing brace. -/
theorem Token.Legible.lexeme_of_kind {t : Token} (h : t.Legible)
    (hkind : t.kind = .semicolon ∨ t.kind = .rightBrace) :
    ∃ c, t.lexeme.toList = [c] ∧ (c = ';' ∨ c = '}') := by
  obtain ⟨s, s', -, hscans⟩ := h
  generalize he : Event.token t = e at hscans
  cases hscans with
  | string _ _ | number _ _ _ =>
      cases he
      rcases hkind with hkind | hkind <;> cases hkind
  | word _ _ _ _ =>
      cases he
      rcases hkind with hkind | hkind <;>
        exact absurd hkind (Kind.ofWord_ne (by decide) rfl)
  | mark _ _ hk =>
      cases he
      obtain ⟨hsemicolon, hbrace⟩ := Scanner.take_of_symbol hk
      rcases hkind with hkind | hkind
      · exact ⟨_, String.toList_ofList.trans (hsemicolon hkind), .inl rfl⟩
      · exact ⟨_, String.toList_ofList.trans (hbrace hkind), .inr rfl⟩
  | openString _ _ | bad _ _ _ => cases he

/-- A source is what is before a token, the characters of the token, and what
is behind it. -/
theorem toList_of_mem_tokenize {source : String} {t : Token} (ht : t ∈ tokenize source)
    (hkind : t.kind ≠ .eof) :
    ∃ before, source.toList = before ++ t.lexeme.toList ++ source.toList.drop t.stop := by
  obtain ⟨tiles, last, htiles, hall, hevents, hlast, -⟩ :=
    Scanner.exists_tiles_events (Scanner.follows_ofSource source)
  have htokens : tokenize source = tiles.filterMap Tile.token? ++ [last] := by
    unfold tokenize scan
    rw [hevents, tokensOf_append, tokensOf_filterMap]
    rfl
  rw [htokens, List.mem_append, List.mem_singleton] at ht
  rcases ht with ht | rfl
  · obtain ⟨tile, htile, ht⟩ := List.mem_filterMap.1 ht
    obtain ⟨-, hstart, hstop, hlexeme⟩ := (hall tile htile).token ht
    obtain ⟨-, hlt, -⟩ := htiles.bounds tile htile
    refine ⟨source.toList.take tile.start, ?_⟩
    have hbetween : between source.toList tile.start tile.stop ++ source.toList.drop tile.stop
        = source.toList.drop tile.start := by
      have hsplit := List.take_append_drop (tile.stop - tile.start)
        (source.toList.drop tile.start)
      rwa [List.drop_drop, Nat.add_sub_of_le (Nat.le_of_lt hlt)] at hsplit
    rw [hlexeme, hstop, String.toList_ofList, List.append_assoc, hbetween, List.take_append_drop]
  · exact absurd hlast hkind

-- ================================================================= the run

/-- How lexical errors are told of changes neither the answer of a run nor
the variables and standard output at its end. -/
theorem runSource_silent {report report' : Reporter} (h : report.Silent) (h' : report'.Silent)
    (source : String) (m : Machine) :
    (runSource source report m).1 = (runSource source report' m).1
      ∧ (runSource source report' m).2.Alike (runSource source report m).2 := by
  obtain ⟨hanswer, halike⟩ := Cursor.run_alike h (Cursor.ofSource source) .nil (.refl m)
  obtain ⟨hanswer', halike'⟩ := Cursor.run_alike h' (Cursor.ofSource source) .nil (.refl m)
  exact ⟨hanswer.trans hanswer'.symm, halike'.of_common halike⟩

-- ============================================================= the result

/-- A program entered at the prompt runs as that program. Its last token is a
semicolon or a closing brace, and if nothing but blanks stands behind that
token, the text is run as statements. Run as statements, it has the same
answer as when it is run elsewhere, be it a value or a fault, and leaves the
same scopes and the same text on standard output. -/
theorem entered_program_runs (text : String) (m : Machine)
    (hparse : (Cursor.ofSource text).program.2.1 = none)
    (hne : (Cursor.ofSource text).program.1 ≠ []) :
    (∃ ts z last, tokenize text = ts ++ [z, last] ∧ last.kind = .eof
        ∧ (z.kind = .semicolon ∨ z.kind = .rightBrace)
        ∧ ((∀ c ∈ text.toList.drop z.stop, Text.isBlank c = true) → isStatementText text = true))
      ∧ (isStatementText text = true →
          let entered := Session.runEntry text m
          let run := runSource text .warn m
          entered.2 = true ∧ entered.1.1 = run.1 ∧ entered.1.2.env = run.2.env
            ∧ entered.1.2.trace.stdout = run.2.trace.stdout) := by
  refine ⟨?_, fun hstatement => ?_⟩
  · obtain ⟨ts, last, -, htokens, hlast, hss, -⟩ := Cursor.program_finished hparse
    -- the last statement ends in a semicolon or a brace, and only space follows it
    obtain ⟨us, z, rfl, hz⟩ := last_of_statements hss hne
    rw [List.append_assoc, List.singleton_append] at htokens
    refine ⟨us, z, last, htokens, hlast, hz, fun hblanks => ?_⟩
    have hmem : z ∈ tokenize text := by
      rw [htokens]
      simp
    have hkind : z.kind ≠ .eof := by
      rcases hz with hz | hz <;> rw [hz] <;> decide
    obtain ⟨c, hlexeme, hc⟩ := (legible_of_mem_tokenize hmem hkind).lexeme_of_kind hz
    obtain ⟨before, htext⟩ := toList_of_mem_tokenize hmem hkind
    rw [hlexeme, List.append_assoc, List.singleton_append] at htext
    exact Prompt.isStatementText_append htext hblanks hc
  · obtain ⟨hanswer, halike⟩ :=
      runSource_silent Reporter.silent_echo Reporter.silent_warn text m
    unfold Session.runEntry
    rw [if_pos hstatement]
    exact ⟨rfl, hanswer, halike.env, halike.stdout⟩

/-- A block with a bad character in it and a line feed behind it. -/
theorem entered_program_runs_block :
    let text := "var a = 1; { @ a = a + 1; } \n"
    let entered := Session.runEntry text {}
    (Cursor.ofSource text).program.2.1 = none ∧ (Cursor.ofSource text).program.1 ≠ []
      ∧ isStatementText text = true ∧ entered.2 = true
      ∧ entered.1.1 = (runSource text .warn {}).1
      ∧ entered.1.2.env = (runSource text .warn {}).2.env := by
  intro text entered
  have hparse : (Cursor.ofSource text).program.2.1 = none := by decide +kernel
  have hne : (Cursor.ofSource text).program.1 ≠ [] := by decide +kernel
  have hstatement : isStatementText text = true := by decide +kernel
  obtain ⟨-, hruns⟩ := entered_program_runs text {} hparse hne
  obtain ⟨hflag, hanswer, henv, -⟩ := hruns hstatement
  exact ⟨hparse, hne, hstatement, hflag, hanswer, henv⟩

/-- With a comment behind its last statement, a program is taken for an
expression: it is rejected where a run prints. -/
theorem commented_program_rejected :
    let text := "print 1; // one"
    let entered := Session.runEntry text {}
    let run := runSource text .warn {}
    (Cursor.ofSource text).program.2.1 = none ∧ (Cursor.ofSource text).program.1 ≠ []
      ∧ run.1.toOption = some .nil ∧ run.2.trace.stdout = "1\n"
      ∧ entered.2 = false ∧ entered.1.1.toOption = none ∧ entered.1.2.trace.stdout = "" := by
  decide +kernel

end Lox

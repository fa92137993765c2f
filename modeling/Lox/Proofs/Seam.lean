/-
Two texts joined by a line feed.

# Further down

Where a text starts does not matter to how it is scanned: a scanner some
characters and lines further down gives the same events, with their places
moved (`events_shift`).

# The seam

A line feed is a blank, so that tokens stop before it as they stop at the end
of a text (`Scans.extend`), and it also ends a comment that is open there
(`skipTrivia_extend`). Only a string that is not closed reads on. Without
one, the joined text scans to the events of the first text up to its end
token, and then to those of the second further down (`scan_line_feed`); the
tokens and the errors among them do the same, each for themselves.
-/
import Lox.Proofs.Breaks

namespace Lox

-- =========================================================== further down

/-- The same token some characters and lines further down. -/
def Token.shift (chars lines : Nat) (t : Token) : Token :=
  { t with start := t.start + chars, stop := t.stop + chars, line := t.line + lines }

/-- The same lexical error some characters and lines further down. -/
def LexError.shift (chars lines : Nat) (e : LexError) : LexError :=
  { e with offset := e.offset + chars, line := e.line + lines }

def Event.shift (chars lines : Nat) : Event → Event
  | .token t => .token (t.shift chars lines)
  | .error e => .error (e.shift chars lines)

/-- The tokens of events further down are further down. -/
theorem tokensOf_shift (chars lines : Nat) (events : List Event) :
    tokensOf (events.map (Event.shift chars lines))
      = (tokensOf events).map (Token.shift chars lines) := by
  induction events with
  | nil => rfl
  | cons event events ih =>
      cases event with
      | token t => exact congrArg (t.shift chars lines :: ·) ih
      | error e => exact ih

theorem errorsOf_shift (chars lines : Nat) (events : List Event) :
    errorsOf (events.map (Event.shift chars lines))
      = (errorsOf events).map (LexError.shift chars lines) := by
  induction events with
  | nil => rfl
  | cons event events ih =>
      cases event with
      | token t => exact ih
      | error e => exact congrArg (e.shift chars lines :: ·) ih

namespace Scanner

/-- The scanner of a text that starts further down. -/
def shift (chars lines : Nat) (s : Scanner) : Scanner :=
  { s with pos := s.pos + chars, line := s.line + lines }

section

variable (chars lines : Nat) (s : Scanner)

/-- Dropping characters is the same further down. -/
theorem drop_shift (n : Nat) : (s.shift chars lines).drop n = (s.drop n).shift chars lines := by
  simp only [drop, shift, Nat.add_right_comm]

theorem pass_shift (n : Nat) : (s.shift chars lines).pass n = (s.pass n).shift chars lines := by
  simp only [pass, drop, shift, Nat.add_right_comm]

theorem skipTrivia_shift : (s.shift chars lines).skipTrivia = s.skipTrivia.shift chars lines :=
  pass_shift chars lines s _

/-- A token made further down is further down. -/
theorem tokenOf_shift (kind : Kind) (length : Nat) (literal : Option String) :
    (s.shift chars lines).tokenOf kind length literal
      = (s.tokenOf kind length literal).shift chars lines := by
  simp only [tokenOf, Event.shift, Token.shift, shift, Nat.add_right_comm, Int.natCast_add]

end

/-- A scanner further down meets the same event further down. -/
theorem Scans.shift {s s' : Scanner} {e : Event} (chars lines : Nat) (h : Scans s e s') :
    Scans (s.shift chars lines) (e.shift chars lines) (s'.shift chars lines) := by
  cases h with
  | string hs hbody =>
      rw [← tokenOf_shift, ← pass_shift]
      exact .string hs hbody
  | openString hs hbody =>
      rw [← pass_shift]
      have h := Scans.openString (s := s.shift chars lines) hs hbody
      rwa [pass_shift] at h ⊢
  | number hs hq hd =>
      rw [← tokenOf_shift, ← drop_shift]
      exact .number hs hq hd
  | word hs hq hd hw =>
      rw [← tokenOf_shift, ← drop_shift]
      exact .word hs hq hd hw
  | mark hs hc hk =>
      rw [← tokenOf_shift, ← drop_shift]
      exact .mark hs hc hk
  | bad hs hc hk =>
      rw [← drop_shift]
      exact .bad hs hc hk

/-- A text further down has the same events further down. -/
theorem events_shift (chars lines : Nat) (s : Scanner) :
    (s.shift chars lines).events = s.events.map (Event.shift chars lines) := by
  fun_induction events s with
  | case1 s t hrest =>
      have hskip := skipTrivia_shift chars lines s
      rw [events_of_end (by rw [hskip]; exact hrest), hskip]
      simp only [List.map_cons, List.map_nil, Event.shift, Token.shift, endToken, shift, t,
        Nat.add_right_comm, Int.natCast_add]
  | case2 s t hrest ih =>
      have hscans := (scans_scanToken hrest).shift chars lines
      rw [← skipTrivia_shift] at hscans
      rw [events_of_scans hscans, ih, List.map_cons]

-- =============================================================== the seam

/-- The scanner that has passed all that is left and a line feed. -/
def beyond (s : Scanner) (more : List Char) : Scanner :=
  (s.extend ('\n' :: more)).pass (s.rest.length + 1)

section

variable (s : Scanner) (more : List Char)

/-- Where the text beyond starts. -/
theorem beyond_eq :
    s.beyond more
      = ⟨more, s.pos + (s.rest.length + 1), s.line + (s.rest.count '\n' + 1)⟩ := by
  simp only [beyond, pass, drop, extend, List.drop_length_add_append, List.take_length_add_append,
    List.drop_succ_cons, List.drop_zero, List.take_succ_cons, List.take_zero, List.count_append,
    List.count_singleton_self]

/-- What is beyond stays there while the text before it is passed. -/
theorem beyond_pass {n : Nat} (h : n ≤ s.rest.length) : (s.pass n).beyond more = s.beyond more := by
  unfold beyond
  rw [← pass_extend _ _ h, pass_pass, rest_pass, List.length_drop]
  congr 1
  omega

end

/-- Trivia of a text are skipped before those behind a line feed. -/
theorem skipTrivia_extend (s : Scanner) (more : List Char) :
    (s.extend ('\n' :: more)).skipTrivia = (s.skipTrivia.extend ('\n' :: more)).skipTrivia := by
  generalize hs : s.rest = cs
  induction cs using leadInduction generalizing s with
  | stop cs h => rw [skipTrivia_leadless (s := s) (hs ▸ h)]
  | step piece after hlead ih =>
      have hlead' : Lead piece (after ++ '\n' :: more) := by
        cases hlead with
        | blank _ hc => exact .blank _ hc
        | comment hline hafter =>
            refine .comment hline ?_
            cases after with
            | nil => simp
            | cons c after => exact hafter
      have hle : piece.length ≤ s.rest.length := by
        rw [hs, List.length_append]
        omega
      have hextend : (s.extend ('\n' :: more)).rest = piece ++ (after ++ '\n' :: more) := by
        rw [rest_extend, hs, List.append_assoc]
      rw [skipTrivia_lead hs hlead, skipTrivia_lead hextend hlead', pass_extend _ _ hle]
      exact ih _ (by rw [rest_pass, hs, List.drop_left])

-- ============================================================== two texts

/-- Every scan ends in an event, that of the end. -/
theorem events_ne_nil (s : Scanner) : s.events ≠ [] := by
  obtain ⟨body, last, heq, -⟩ := s.events_eq
  rw [heq]
  simp

/-- A scan depends on what is behind the trivia only. -/
theorem events_eq_of_skipTrivia {s s' : Scanner} (h : s.skipTrivia = s'.skipTrivia) :
    s.events = s'.events := by
  by_cases hrest : s'.skipTrivia.rest = []
  · rw [events_of_end hrest, events_of_end (h ▸ hrest), h]
  · have hscans := scans_scanToken hrest
    rw [events_of_scans hscans]
    rw [← h] at hscans
    rw [events_of_scans hscans, h]

theorem beyond_skipTrivia (s : Scanner) (more : List Char) :
    s.skipTrivia.beyond more = s.beyond more :=
  beyond_pass s more (triviaLength_le s.rest)

/-- Text behind a line feed adds its events, from beyond, to those before the
end token. -/
theorem events_extend (s : Scanner) (more : List Char)
    (h : ∀ e ∈ errorsOf s.events, e.fault ≠ .unterminatedString) :
    (s.extend ('\n' :: more)).events = s.events.dropLast ++ (s.beyond more).events := by
  fun_induction events s with
  | case1 s t hrest =>
      have hrest' : (t.extend ('\n' :: more)).rest = ['\n'] ++ more := by
        rw [rest_extend, hrest]
        rfl
      have hbeyond : (t.extend ('\n' :: more)).pass 1 = s.beyond more := by
        rw [← beyond_skipTrivia]
        show _ = (t.extend _).pass (t.rest.length + 1)
        rw [hrest]
        rfl
      -- the line feed is the first of the trivia beyond
      have hskip := skipTrivia_lead hrest' (.blank more (by decide))
      rw [List.dropLast_singleton, List.nil_append]
      apply events_eq_of_skipTrivia
      rw [skipTrivia_extend, ← hbeyond]
      exact hskip
  | case2 s t hrest ih =>
      have hscans := scans_scanToken hrest
      have hlead : Leadless t.rest := leadless_skipTrivia s
      obtain ⟨n, hn, hpass⟩ := hscans.passes hlead
      have hbeyond : (t.scanToken).2.beyond more = s.beyond more := by
        rw [hpass, beyond_pass _ _ hn, beyond_skipTrivia]
      have hextend : (s.extend ('\n' :: more)).skipTrivia = t.extend ('\n' :: more) := by
        rw [skipTrivia_extend]
        apply skipTrivia_leadless
        obtain ⟨c, rest, hc⟩ := List.exists_cons_of_ne_nil hrest
        rw [rest_extend, hc]
        rw [hc] at hlead
        exact hlead.breaks (breaks_line_feed more)
      have hfirst : ∀ err, (t.scanToken).1 = .error err → err.fault ≠ .unterminatedString := by
        intro err herr
        apply h
        rw [herr, errorsOf_error]
        exact List.mem_cons_self ..
      have hothers : ∀ err ∈ errorsOf (t.scanToken).2.events, err.fault ≠ .unterminatedString := by
        intro err herr
        apply h
        cases (t.scanToken).1 with
        | token _ => exact herr
        | error _ => exact List.mem_cons_of_mem _ herr
      have hscans' := hscans.extend hfirst (breaks_line_feed more)
      rw [← hextend] at hscans'
      rw [events_of_scans hscans', ih hothers, hbeyond,
        List.dropLast_cons_of_ne_nil (events_ne_nil _), List.cons_append]

end Scanner

/-- The events of two texts with a line feed between them: those of the first
up to its end token, and those of the second, as far further down as the
first text and the line feed reach. -/
theorem scan_line_feed (first second : String)
    (h : ∀ e ∈ errorsOf (scan first), e.fault ≠ .unterminatedString) :
    scan (first ++ "\n" ++ second)
      = (scan first).dropLast
        ++ (scan second).map
            (Event.shift (first.length + 1) (first.toList.count '\n' + 1)) := by
  have hjoined : Scanner.ofSource (first ++ "\n" ++ second)
      = (Scanner.ofSource first).extend ('\n' :: second.toList) := by
    unfold Scanner.ofSource Scanner.extend
    rw [String.toList_append, String.toList_append, List.append_assoc]
    rfl
  have hbeyond : (Scanner.ofSource first).beyond second.toList
      = (Scanner.ofSource second).shift (first.length + 1) (first.toList.count '\n' + 1) := by
    rw [Scanner.beyond_eq]
    unfold Scanner.ofSource Scanner.shift
    simp only [String.length_toList, Nat.zero_add, Nat.add_comm]
  unfold scan
  rw [hjoined, Scanner.events_extend _ _ h, hbeyond, Scanner.events_shift]

/-- Up to its end token, a scan has the tokens before the end token and all
the errors. -/
theorem scan_dropLast {source : String} {ts : List Token} {last : Token}
    (h : tokenize source = ts ++ [last]) :
    tokensOf (scan source).dropLast = ts
      ∧ errorsOf (scan source).dropLast = errorsOf (scan source) := by
  obtain ⟨body, last', hscan, -⟩ := (Scanner.ofSource source).events_eq
  unfold tokenize scan at h
  rw [hscan, tokensOf_append] at h
  obtain ⟨hts, -⟩ := List.append_inj' h rfl
  unfold scan
  rw [hscan, List.dropLast_concat, errorsOf_append]
  exact ⟨hts, (List.append_nil _).symm⟩

/-- The tokens of two texts with a line feed between them: the end token of
the first is gone. -/
theorem tokenize_line_feed {first second : String} {ts : List Token} {last : Token}
    (hfirst : tokenize first = ts ++ [last])
    (hclosed : ∀ e ∈ errorsOf (scan first), e.fault ≠ .unterminatedString) :
    tokenize (first ++ "\n" ++ second)
      = ts ++ (tokenize second).map
          (Token.shift (first.length + 1) (first.toList.count '\n' + 1)) := by
  unfold tokenize
  rw [scan_line_feed first second hclosed, tokensOf_append, (scan_dropLast hfirst).1,
    tokensOf_shift]

/-- Scanning is compositional at line feeds. Unless a string is open at the
end of the first text, the tokens of two texts with a line feed between them
are those of the first without its end token and then those of the second,
and the errors are those of the first and then those of the second. What
comes from the second text is as many characters further down as the first
text and the line feed have, and as many lines as they have line feeds. -/
theorem scan_compositional_at_line_feed {first : String} (second : String)
    (hclosed : ∀ e ∈ errorsOf (scan first), e.fault ≠ .unterminatedString) :
    let chars := first.length + 1
    let lines := first.toList.count '\n' + 1
    ∃ ts last, tokenize first = ts ++ [last]
      ∧ last.kind = .eof ∧ (∀ t ∈ ts, t.kind ≠ .eof)
      ∧ tokenize (first ++ "\n" ++ second)
          = ts ++ (tokenize second).map (Token.shift chars lines)
      ∧ errorsOf (scan (first ++ "\n" ++ second))
          = errorsOf (scan first) ++ (errorsOf (scan second)).map (LexError.shift chars lines) := by
  intro chars lines
  obtain ⟨ts, last, hfirst, hlast, hts⟩ := tokenize_eq first
  refine ⟨ts, last, hfirst, hlast, fun t ht => (hts t ht).not_eof,
    tokenize_line_feed hfirst hclosed, ?_⟩
  rw [scan_line_feed first second hclosed, errorsOf_append, (scan_dropLast hfirst).2,
    errorsOf_shift]

/-- An equals sign at the cut does not join the one behind it, and a quote in
a comment opens no string. -/
theorem scan_compositional_after_equal :
    let first := "a // \"\n="
    let second := "= $"
    (∀ e ∈ errorsOf (scan first), e.fault ≠ .unterminatedString)
      ∧ (tokenize (first ++ "\n" ++ second)).map (fun t => (t.kind, t.start, t.line))
          = [(.identifier, 0, 1), (.equal, 7, 2), (.equal, 9, 3), (.eof, 12, 3)]
      ∧ errorsOf (scan (first ++ "\n" ++ second))
          = [⟨.unexpectedCharacter (some '$'), 11, 3⟩] := by
  intro first second
  have hclosed : ∀ e ∈ errorsOf (scan first), e.fault ≠ .unterminatedString := by decide +kernel
  have hfirst : tokenize first
      = [⟨.identifier, "a", none, 0, 1, 1⟩, ⟨.equal, "=", none, 7, 8, 2⟩]
        ++ [⟨.eof, "", none, 8, 9, 2⟩] := by
    decide +kernel
  obtain ⟨ts, last, hts, -, -, htokens, herrors⟩ := scan_compositional_at_line_feed second hclosed
  obtain ⟨hbody, -⟩ := List.append_inj' (hfirst.symm.trans hts) rfl
  refine ⟨hclosed, ?_, ?_⟩
  · rw [htokens, ← hbody]
    decide +kernel
  · rw [herrors]
    decide +kernel

end Lox

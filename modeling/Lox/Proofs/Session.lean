/-
A session equals a batch run.

A text can be run in one go, or cut at a line feed and run in two, the
second part on the machine that the first has left. Where the first part is
a program of its own, both come to the same. The tokens of the whole are
those of the first part without its end token, and those of the second
further down (`tokenize_line_feed`). So the statements of the first part are
taken first, the parser goes on with the second part as if it stood alone
(`takes_line_feed`), and a run in two phases goes through the statements of
both in order (`runParsed_of_statements`). What differs is where the second
part stands, which shows in objections to its tokens only, and the value
that is there before its first statement (`batch_of_ok`).
-/
import Lox.Proofs.Positions
import Lox.Proofs.Run
import Lox.Proofs.Seam

namespace Lox

open Grammar (Statement Statements)

-- ================================================================= tokens

/-- A shift of places leaves a parser's view of the tokens. -/
theorem relabeling_shift (chars lines : Nat) : Relabeling (Token.shift chars lines) := by
  constructor <;> intro t <;> rfl

namespace Cursor

/-- In front of more text, a program is still taken statement by statement,
up to where the tokens of that text begin. -/
theorem takes_line_feed {first second : String}
    (hparse : (Cursor.ofSource first).program.2.1 = none)
    (hclosed : ∀ e ∈ errorsOf (scan first), e.fault ≠ .unterminatedString) :
    ∃ ts c, Statements ts (Cursor.ofSource first).program.1
      ∧ (Cursor.ofSource (first ++ "\n" ++ second)).Takes ts c
      ∧ tokensOf c.pending
          = (tokenize second).map
              (Token.shift (first.length + 1) (first.toList.count '\n' + 1)) := by
  have hsourced := sourced_ofSource first
  obtain ⟨ts, c, hss, htakes, hstops⟩ := (Cursor.ofSource first).program_takes
  rw [hparse] at hstops
  obtain ⟨last, hlast, -⟩ := (hsourced.statements hss htakes).tokens_atEnd hstops.finished
  have hfirst : tokenize first = ts ++ [last] := by
    rw [← hlast]
    exact htakes.tokens
  obtain ⟨c', htakes', hrest⟩ :=
    exists_takes (c := Cursor.ofSource (first ++ "\n" ++ second))
      (tokenize_line_feed hfirst hclosed)
  exact ⟨ts, c', hss, htakes', hrest⟩

end Cursor

-- =================================================================== runs

/-- Statements may be evaluated in two goes. -/
theorem Node.evalAll_append (ss ts : List Node) (last : Value) (m : Machine) :
    Node.evalAll (ss ++ ts) last m = (Node.evalAll ss last m).andThen (Node.evalAll ts) := by
  induction ss generalizing last m with
  | nil => rfl
  | cons s ss ih =>
      simp only [List.cons_append, Node.evalAll]
      rcases s.eval m with ⟨fault | v, m'⟩
      · rfl
      · exact ih v m'

/-- The same failure over relabeled tokens. -/
def Failure.relabel (f : Token → Token) : Failure → Failure
  | .parse failure => .parse (failure.relabel f)
  | .runtime fault => .runtime fault

namespace Cursor

/-- Derived statements are run through, and the run goes on behind them. -/
theorem runParsed_of_statements {c c' : Cursor} {ts : List Token} {ss : List Node}
    (h : Statements ts ss) (htakes : c.Takes ts c') (last : Value) (m : Machine) :
    c.runParsed last m = match Node.evalAll ss last m with
      | (.error fault, m) => (.error (.runtime fault), m)
      | (.ok v, m) => c'.runParsed v m := by
  unfold runParsed
  rw [program_of_statements h htakes]
  dsimp only
  rw [Node.evalAll_append]
  rcases Node.evalAll ss last m with ⟨fault | v, m'⟩ <;> rfl

/-- Relabeled tokens run the same, up to the token that a failure points
at. -/
theorem runParsed_relabel {f : Token → Token} (hf : Relabeling f) (c : Cursor) (last : Value)
    (m : Machine) :
    (c.relabel f).runParsed last m
      = ((c.runParsed last m).1.mapError (Failure.relabel f), (c.runParsed last m).2) := by
  unfold runParsed
  rw [program_relabel hf]
  dsimp only
  rcases Node.evalAll c.program.1 last m with ⟨fault | v, m'⟩
  · rfl
  · cases c.program.2.1 <;> rfl

/-- The value that is there at first is the result if no statement is. -/
theorem runParsed_last (c : Cursor) (last last' : Value) (m : Machine) :
    c.runParsed last' m
      = ((c.runParsed last m).1.map fun w => if c.program.1 = [] then last' else w,
          (c.runParsed last m).2) := by
  unfold runParsed
  cases hss : c.program.1 with
  | nil => cases c.program.2.1 <;> rfl
  | cons s ss =>
      simp only [Node.evalAll, reduceCtorEq, if_false]
      rcases (s.eval m).andThen (Node.evalAll ss) with ⟨fault | v, m'⟩
      · rfl
      · cases c.program.2.1 <;> rfl

/-- Only the tokens matter to a run in two phases. -/
theorem runParsed_of_tokens {c c' : Cursor} (h : tokensOf c.pending = tokensOf c'.pending)
    (last : Value) (m : Machine) : c.runParsed last m = c'.runParsed last m := by
  rw [← runParsed_bare, bare_eq_of_tokens h, runParsed_bare]

/-- A run of two texts is a run of the first and then, unless that fails, a
run of the second further down. -/
theorem runParsed_line_feed {first second : String}
    (hparse : (Cursor.ofSource first).program.2.1 = none)
    (hclosed : ∀ e ∈ errorsOf (scan first), e.fault ≠ .unterminatedString) (m : Machine) :
    (Cursor.ofSource (first ++ "\n" ++ second)).runParsed .nil m
      = match (Cursor.ofSource first).runParsed .nil m with
        | (.error failure, m) => (.error failure, m)
        | (.ok v, m) =>
            ((Cursor.ofSource second).relabel
              (Token.shift (first.length + 1) (first.toList.count '\n' + 1))).runParsed v m := by
  obtain ⟨ts, c, hss, htakes, hrest⟩ := takes_line_feed hparse hclosed
  have hsecond : tokensOf c.pending
      = tokensOf ((Cursor.ofSource second).relabel
          (Token.shift (first.length + 1) (first.toList.count '\n' + 1))).pending :=
    hrest.trans (tokensOf_relabel _ _).symm
  have hfirst : (Cursor.ofSource first).runParsed .nil m
      = (answer (Node.evalAll (Cursor.ofSource first).program.1 .nil m).1 none,
          (Node.evalAll (Cursor.ofSource first).program.1 .nil m).2) := by
    unfold runParsed
    rw [hparse]
  rw [runParsed_of_statements hss htakes, hfirst]
  rcases Node.evalAll (Cursor.ofSource first).program.1 .nil m with ⟨fault | v, m'⟩
  · rfl
  · exact runParsed_of_tokens hsecond v m'

end Cursor

-- ============================================================ the result

/-- Machines that are alike to a third one are alike. -/
theorem Machine.Alike.of_common {m m' m'' : Machine} (h : m.Alike m') (h' : m.Alike m'') :
    m'.Alike m'' :=
  ⟨h'.env.trans h.env.symm, h'.stdout.trans h.stdout.symm⟩

section

variable {first : String} (second : String) {m : Machine}
  (hparse : (Cursor.ofSource first).program.2.1 = none)
  (hclosed : ∀ e ∈ errorsOf (scan first), e.fault ≠ .unterminatedString)

include hparse

/-- A text that parses fails by a fault while it runs. -/
theorem runtime_of_runParsed {failure : Failure}
    (h : ((Cursor.ofSource first).runParsed .nil m).1 = .error failure) :
    ∃ fault, failure = .runtime fault := by
  cases failure with
  | runtime fault => exact ⟨fault, rfl⟩
  | parse failure =>
      have hstop := parse_of_answer h
      rw [hparse] at hstop
      cases hstop

include hclosed

/-- If the first text fails, the batch stops there. -/
theorem batch_of_error {failure : Failure} (h : (runSource first .warn m).1 = .error failure) :
    (∃ fault, failure = .runtime fault)
      ∧ (runSource (first ++ "\n" ++ second) .warn m).1 = .error failure
      ∧ (runSource first .warn m).2.Alike (runSource (first ++ "\n" ++ second) .warn m).2 := by
  obtain ⟨hopening, hopeningAlike⟩ :=
    Cursor.run_alike Reporter.silent_warn (Cursor.ofSource first) .nil (.refl m)
  obtain ⟨hbatch, hbatchAlike⟩ := Cursor.run_alike Reporter.silent_warn
    (Cursor.ofSource (first ++ "\n" ++ second)) .nil (.refl m)
  have hfailed := hopening.symm.trans h
  rw [Cursor.runParsed_line_feed hparse hclosed] at hbatch hbatchAlike
  rcases hfirst : (Cursor.ofSource first).runParsed .nil m with ⟨failure' | v, m'⟩
  · rw [hfirst] at hfailed hopeningAlike hbatch hbatchAlike
    cases hfailed
    exact ⟨runtime_of_runParsed hparse (congrArg Prod.fst hfirst), hbatch,
      hopeningAlike.of_common hbatchAlike⟩
  · rw [hfirst] at hfailed
    cases hfailed

/-- If the first text has a value, the batch answers as the second text does
on the machine that the first one leaves, but for the tokens, which are
further down, and for the value that is there before the first statement. -/
theorem batch_of_ok {v : Value} (h : (runSource first .warn m).1 = .ok v) :
    (runSource (first ++ "\n" ++ second) .warn m).1
        = ((runSource second .warn (runSource first .warn m).2).1.map fun w =>
            if (Cursor.ofSource second).program.1 = [] then v else w).mapError
              (Failure.relabel
                (Token.shift (first.length + 1) (first.toList.count '\n' + 1)))
      ∧ (runSource second .warn (runSource first .warn m).2).2.Alike
          (runSource (first ++ "\n" ++ second) .warn m).2 := by
  obtain ⟨hopening, hopeningAlike⟩ :=
    Cursor.run_alike Reporter.silent_warn (Cursor.ofSource first) .nil (.refl m)
  obtain ⟨hclosing, hclosingAlike⟩ :=
    Cursor.run_alike Reporter.silent_warn (Cursor.ofSource second) .nil hopeningAlike
  obtain ⟨hbatch, hbatchAlike⟩ := Cursor.run_alike Reporter.silent_warn
    (Cursor.ofSource (first ++ "\n" ++ second)) .nil (.refl m)
  have hfinished := hopening.symm.trans h
  rw [Cursor.runParsed_line_feed hparse hclosed] at hbatch hbatchAlike
  rcases hfirst : (Cursor.ofSource first).runParsed .nil m with ⟨failure | v', m'⟩
  · rw [hfirst] at hfinished
    cases hfinished
  · rw [hfirst] at hfinished hclosing hclosingAlike hbatch hbatchAlike
    cases hfinished
    dsimp only at hbatch hbatchAlike hclosing hclosingAlike
    rw [Cursor.runParsed_relabel (relabeling_shift _ _), Cursor.runParsed_last _ .nil]
      at hbatch hbatchAlike
    refine ⟨?_, hclosingAlike.of_common hbatchAlike⟩
    rw [← hclosing] at hbatch
    exact hbatch

end

/-- A session equals a batch run. Let the first of two texts be a program in
which every string is closed. Then running both at once, a line feed between
them, is running the first and, unless that fails, running the second on the
machine it leaves: the scopes at the end and the text on standard output are
the same, and so is the fault if running fails. The value is that of the
second text, or that of the first if the second has no statement. If the
second text is rejected, so is the whole, for the same reason and at the
same token, which is as many lines further down as the first text and the
line feed make. -/
theorem run_session_eq_batch (first second : String) (m : Machine)
    (hparse : (Cursor.ofSource first).program.2.1 = none)
    (hclosed : ∀ e ∈ errorsOf (scan first), e.fault ≠ .unterminatedString) :
    let batch := runSource (first ++ "\n" ++ second) .warn m
    let opening := runSource first .warn m
    let closing := runSource second .warn opening.2
    (∀ failure, opening.1 = .error failure →
        (∃ fault, failure = .runtime fault) ∧ batch.1 = .error failure
          ∧ batch.2.env = opening.2.env ∧ batch.2.trace.stdout = opening.2.trace.stdout)
      ∧ (∀ v, opening.1 = .ok v →
          batch.2.env = closing.2.env ∧ batch.2.trace.stdout = closing.2.trace.stdout
            ∧ (∀ w, closing.1 = .ok w →
                batch.1 = .ok (if (Cursor.ofSource second).program.1 = [] then v else w))
            ∧ (∀ fault, closing.1 = .error (.runtime fault) →
                batch.1 = .error (.runtime fault))
            ∧ (∀ failure, closing.1 = .error (.parse failure) →
                ∃ fault t t', failure = .rejected fault (some t)
                  ∧ batch.1 = .error (.parse (.rejected fault (some t')))
                  ∧ t'.lexeme = t.lexeme
                  ∧ t'.line = t.line + 1 + first.toList.count '\n')) := by
  dsimp only
  refine ⟨fun failure hfailure => ?_, fun v hv => ?_⟩
  · obtain ⟨hfault, hbatch, halike⟩ := batch_of_error second hparse hclosed hfailure
    exact ⟨hfault, hbatch, halike.env, halike.stdout⟩
  · obtain ⟨hbatch, halike⟩ := batch_of_ok second hparse hclosed hv
    refine ⟨halike.env, halike.stdout, fun w hw => ?_, fun fault hfault => ?_,
      fun failure hfailure => ?_⟩
    · rw [hw] at hbatch
      exact hbatch
    · rw [hfault] at hbatch
      exact hbatch
    -- the second text is rejected at a token, which the first one moves down
    · have hparsed := Cursor.run_alike Reporter.silent_warn (Cursor.ofSource second) .nil
        (.refl (runSource first .warn m).2)
      obtain ⟨fault, t, rfl⟩ := (Cursor.sourced_ofSource second).program_rejected
        (parse_of_answer (hparsed.1.symm.trans hfailure))
      rw [hfailure] at hbatch
      refine ⟨fault, t, _, rfl, hbatch, rfl, ?_⟩
      show t.line + ((first.toList.count '\n' + 1 : Nat) : Int) = _
      omega

/-- A comment that is open at the cut ends there, and a syntax error in the
second text is reported for the second line. -/
theorem run_session_eq_batch_comment :
    let first := "var a = 1; // one"
    let second := "print a; a + ;"
    (Cursor.ofSource first).program.2.1 = none
      ∧ (∀ e ∈ errorsOf (scan first), e.fault ≠ .unterminatedString)
      ∧ ∃ t, (runSource (first ++ "\n" ++ second) .warn {}).1
            = .error (.parse (.rejected .missingOperand (some t)))
          ∧ t.lexeme = ";" ∧ t.line = 2 := by
  intro first second
  have hparse : (Cursor.ofSource first).program.2.1 = none := by decide +kernel
  have hclosed : ∀ e ∈ errorsOf (scan first), e.fault ≠ .unterminatedString := by decide +kernel
  have hopening : (runSource first .warn {}).1.toOption = some .nil := by decide +kernel
  have hclosing : (match (runSource second .warn (runSource first .warn {}).2).1 with
      | .error (.parse failure) => some failure
      | _ => none)
        = some (.rejected .missingOperand (some ⟨.semicolon, ";", none, 13, 14, 1⟩)) := by
    decide +kernel
  refine ⟨hparse, hclosed, ?_⟩
  obtain ⟨-, hfinished⟩ := run_session_eq_batch first second {} hparse hclosed
  rcases hfirst : (runSource first .warn {}).1 with failure | v
  · rw [hfirst] at hopening
    cases hopening
  · obtain ⟨-, -, -, -, hrejected⟩ := hfinished v hfirst
    split at hclosing
    · next failure hsecond =>
        cases hclosing
        obtain ⟨fault, t, t', hfailure, hbatch, hlexeme, hline⟩ := hrejected _ hsecond
        cases hfailure
        exact ⟨t', hbatch, hlexeme, hline.trans (by decide +kernel)⟩
    · cases hclosing

end Lox

/-
How a command line can end.

# What a command does

No command breaks down on a source (`Command.breakdown?_eq_none`). Its
parser objects to a token; a fault is one that is reported; and what it
prints has a text, since trees of the grammar have one. So once there is
source text, there is an exit code.

# What comes before

A text for the log level is a number, a name, or neither, and one that is
neither changes nothing. But digits are taken for a number before it is
known that they are one: a text of digits that are not all decimal, or of
too many, is none (`Misnumbered`), and that failure is not caught. Nor is one
over a file name that no file can have, or over bytes that are no text; only
a read that fails is. These are all the ways in which a command line can end
without an exit code, short of a session at the prompt.
-/
import Lox.Proofs.ExitCodes

namespace Lox

-- ============================================================== commands

namespace Command

/-- A failure that is reported does not break the command down. -/
theorem failureBreakdown?_eq_none {failure : Failure} (h : failure.isReported = true) :
    failureBreakdown? failure = none :=
  if_pos h

theorem textBreakdown?_eq_none {α : Type} {r : Except Malformed α} (h : ∃ text, r = .ok text) :
    textBreakdown? r = none := by
  obtain ⟨text, rfl⟩ := h
  rfl

/-- No command breaks down on a source. -/
theorem breakdown?_eq_none (c : Command) (source : String) : c.breakdown? source = none := by
  have hobjects := (Cursor.sourced_ofSource source).expression_objects
  cases c with
  | tokenize => rfl
  | parse =>
      unfold breakdown?
      dsimp only
      split
      · next failure hfailure =>
          obtain ⟨fault, t, rfl⟩ := hobjects failure hfailure
          rfl
      · next e he =>
          exact textBreakdown?_eq_none (Cursor.isExpression_of_expression he).exists_format
  | evaluate =>
      have hreported := reported_evalSource source .echo { env := .null }
      unfold breakdown?
      dsimp only
      split
      · next failure hfailure =>
          rw [hfailure] at hreported
          exact failureBreakdown?_eq_none hreported
      · next v hv =>
          rw [hv] at hreported
          exact textBreakdown?_eq_none (v.exists_display hreported)
  | run =>
      have hreported := reported_runSource Reporter.silent_echo source {}
      unfold breakdown?
      dsimp only
      split
      · next failure hfailure =>
          rw [hfailure] at hreported
          exact failureBreakdown?_eq_none hreported
      · rfl
  | tree =>
      unfold breakdown?
      dsimp only
      split
      · next failure hfailure =>
          obtain ⟨fault, t, rfl⟩ := (Cursor.sourced_ofSource source).program_rejected hfailure
          rfl
      · exact textBreakdown?_eq_none (Cursor.ofSource source).exists_programOutline

end Command

-- ============================================================ log levels

namespace Text

/-- Decimal digits and nothing else make a number. -/
theorem isSome_decimalValue?_iff {cs : List Char} :
    (decimalValue? cs).isSome ↔ ∀ c ∈ cs, (decimalDigit? c).isSome := by
  suffices h : ∀ n, (cs.foldlM (fun value c => (decimalDigit? c).map (10 * value + ·)) n).isSome
      ↔ ∀ c ∈ cs, (decimalDigit? c).isSome from h 0
  induction cs with
  | nil => simp
  | cons c cs ih =>
      intro n
      rw [List.foldlM_cons, List.forall_mem_cons]
      cases decimalDigit? c with
      | none => simp
      | some d => simpa using ih (10 * n + d)

end Text

/-- A text of digits, of whatever script, that is not a number: some digit is
not decimal, or there are more than a number may have. -/
def Misnumbered (raw : String) : Prop :=
  raw.toList ≠ [] ∧ (∀ c ∈ raw.toList, Text.isDigitOfAnyScript c = true)
    ∧ ((∃ c ∈ raw.toList, Text.decimalDigit? c = none) ∨ maxLevelDigits < raw.toList.length)

/-- The level that a text stands for: that of a number or of a name. -/
def levelOf? (raw : String) : Option Int :=
  if !raw.toList.isEmpty && raw.toList.all Text.isDigitOfAnyScript then
    (Text.decimalValue? raw.toList).map Int.ofNat
  else namedLevels.lookup (String.ofList (raw.toList.map capital))

/-- A text changes the level if it stands for one. -/
def levelAfter (level : Int) (raw : String) : Int :=
  (levelOf? raw).getD level

/-- Reading a level fails on a text of digits that is not a number, and on no
other. -/
theorem parseLevel_spec (raw : String) (fallback : Int) :
    (Misnumbered raw → ∃ fault, parseLevel raw fallback = .error fault)
      ∧ (¬ Misnumbered raw → parseLevel raw fallback = .ok (levelAfter fallback raw)) := by
  unfold Misnumbered parseLevel levelAfter levelOf?
  generalize raw.toList = cs
  have hcond : ((!cs.isEmpty && cs.all Text.isDigitOfAnyScript) = true)
      ↔ cs ≠ [] ∧ ∀ c ∈ cs, Text.isDigitOfAnyScript c = true := by
    simp
  dsimp only
  by_cases hdigits : cs ≠ [] ∧ ∀ c ∈ cs, Text.isDigitOfAnyScript c = true
  · rw [if_pos (hcond.2 hdigits), if_pos (hcond.2 hdigits)]
    cases hvalue : Text.decimalValue? cs with
    | none =>
        -- some digit is not decimal, so reading fails in one way or the other
        have hbad : ∃ c ∈ cs, Text.decimalDigit? c = none := by
          have hnone : ¬ (Text.decimalValue? cs).isSome := by simp [hvalue]
          simpa [Text.isSome_decimalValue?_iff] using hnone
        refine ⟨fun _ => ?_, fun h => absurd ⟨hdigits.1, hdigits.2, .inl hbad⟩ h⟩
        split
        · exact ⟨_, rfl⟩
        · exact ⟨_, rfl⟩
    | some n =>
        have hsome : (Text.decimalValue? cs).isSome := by simp [hvalue]
        have hall := Text.isSome_decimalValue?_iff.1 hsome
        have hcount : cs.takeWhile (fun c => (Text.decimalDigit? c).isSome) = cs := by
          have happend : (cs ++ []).takeWhile _ = cs ++ [] := List.takeWhile_append_of_pos hall
          rwa [List.append_nil] at happend
        rw [hcount]
        constructor
        · rintro ⟨-, -, ⟨c, hc, hnone⟩ | hlong⟩
          · have := hall c hc
            rw [hnone] at this
            cases this
          · exact ⟨_, if_pos hlong⟩
        · intro h
          rw [if_neg fun hlong => h ⟨hdigits.1, hdigits.2, .inr hlong⟩]
          rfl
  · rw [if_neg (mt hcond.1 hdigits), if_neg (mt hcond.1 hdigits)]
    exact ⟨fun h => absurd ⟨h.1, h.2.1⟩ hdigits, fun _ => rfl⟩

-- ======================================================== the command line

namespace Settings

/-- The value of a word that sets the log level. -/
def levelText? (word : String) : Option String :=
  if levelOption.isPrefixOf word.toList then
    some (String.ofList (word.toList.drop levelOption.length))
  else none

/-- The texts that are given for the log level: that of the environment, if
it is not blank, and those of the options in order. -/
def levelTexts (env : Variables) (args : List String) : List String :=
  let raw := Text.trim ((env.lookup "LOX_LOG_LEVEL").getD "")
  (if raw.isEmpty then [] else [raw]) ++ args.filterMap levelText?

/-- The words that are no options. -/
def plainWords (args : List String) : List String :=
  args.filter fun word => (levelText? word).isNone && word != "--py-traceback"

/-- A word that sets the level sets it or fails as the level does. -/
theorem addWord_of_level {word raw : String} (h : levelText? word = some raw) (s : Settings) :
    s.addWord word = (parseLevel raw s.level).map fun level => { s with level } := by
  unfold levelText? at h
  split at h
  · next hprefix =>
      cases h
      unfold addWord
      rw [if_pos hprefix]
      cases parseLevel (String.ofList (word.toList.drop levelOption.length)) s.level <;> rfl
  · cases h

/-- Any other word keeps the level. -/
theorem addWord_of_none {word : String} (h : levelText? word = none) (s : Settings) :
    ∃ s', s.addWord word = .ok s' ∧ s'.level = s.level
      ∧ s'.words = s.words ++ plainWords [word] := by
  have hprefix : ¬ levelOption.isPrefixOf word.toList = true := by
    intro hprefix
    rw [levelText?, if_pos hprefix] at h
    cases h
  unfold addWord
  rw [if_neg hprefix]
  by_cases htrace : word = "--py-traceback"
  · rw [if_pos htrace]
    exact ⟨_, rfl, rfl, by simp [plainWords, htrace]⟩
  · rw [if_neg htrace]
    exact ⟨_, rfl, rfl, by simp [plainWords, h, htrace]⟩

/-- `Heeds r raws level words`: the settings `r` take the texts `raws` for the
level in order, from `level` on, or fail if one of them is misnumbered; and
they keep these words. -/
def Heeds (r : Except LevelFault Settings) (raws : List String) (level : Int)
    (words : List String) : Prop :=
  ((∃ raw ∈ raws, Misnumbered raw) → ∃ fault, r = .error fault)
    ∧ ((∀ raw ∈ raws, ¬ Misnumbered raw) →
      ∃ s, r = .ok s ∧ s.level = raws.foldl levelAfter level ∧ s.words = words)

/-- One more text to begin with. -/
theorem Heeds.cons {raws words : List String} {k : Int → Except LevelFault Settings}
    (h : ∀ level, Heeds (k level) raws level words) (raw : String) (level : Int) :
    Heeds (parseLevel raw level >>= k) (raw :: raws) level words := by
  obtain ⟨hbad, hgood⟩ := parseLevel_spec raw level
  by_cases hraw : Misnumbered raw
  · obtain ⟨fault, hfault⟩ := hbad hraw
    rw [hfault]
    exact ⟨fun _ => ⟨fault, rfl⟩, fun hall => absurd hraw (hall raw (List.mem_cons_self ..))⟩
  · rw [hgood hraw]
    obtain ⟨hrest, hrest'⟩ := h (levelAfter level raw)
    refine ⟨fun hsome => hrest ?_, fun hall => hrest' (List.forall_mem_cons.1 hall).2⟩
    obtain ⟨raw', hmem, hraw'⟩ := hsome
    rcases List.mem_cons.1 hmem with rfl | hmem
    · exact absurd hraw' hraw
    · exact ⟨raw', hmem, hraw'⟩

/-- The words of a command line are heeded from the first to the last. -/
theorem heeds_foldlM_addWord (s : Settings) (args : List String) :
    Heeds (args.foldlM addWord s) (args.filterMap levelText?) s.level
      (s.words ++ plainWords args) := by
  induction args generalizing s with
  | nil => exact ⟨fun ⟨raw, hraw, _⟩ => absurd hraw List.not_mem_nil,
      fun _ => ⟨s, rfl, rfl, (List.append_nil _).symm⟩⟩
  | cons word args ih =>
      rw [List.foldlM_cons]
      cases hword : levelText? word with
      | none =>
          obtain ⟨s', hadd, hlevel, hwords⟩ := addWord_of_none hword s
          have hplain : plainWords (word :: args) = plainWords [word] ++ plainWords args :=
            List.filter_append [word] args
          rw [List.filterMap_cons_none hword, hadd, hplain, ← List.append_assoc, ← hwords, ← hlevel]
          exact ih s'
      | some raw =>
          have hplain : plainWords (word :: args) = plainWords args := by
            simp [plainWords, hword]
          have hadd : s.addWord word >>= (fun s => args.foldlM addWord s)
              = parseLevel raw s.level >>= fun level => args.foldlM addWord { s with level } := by
            rw [addWord_of_level hword]
            cases parseLevel raw s.level <;> rfl
          rw [List.filterMap_cons_some hword, hadd, hplain]
          exact Heeds.cons (fun level => ih { s with level }) raw s.level

/-- The settings of a command line heed the environment first, and then the
words. -/
theorem heeds_ofArgs (env : Variables) (args : List String) :
    Heeds (ofArgs env args) (levelTexts env args) defaultLevel (plainWords args) := by
  have hwords (level : Int) := heeds_foldlM_addWord { level, showTrace := env.showTrace } args
  unfold ofArgs levelTexts Variables.level
  dsimp only
  generalize Text.trim ((env.lookup "LOX_LOG_LEVEL").getD "") = raw
  cases raw.isEmpty with
  | true => exact hwords defaultLevel
  | false => exact Heeds.cons hwords raw defaultLevel

end Settings

namespace Request

/-- What a command line asks for. -/
def ofLine (args : List String) : Request :=
  ofWords (Settings.plainWords args)

/-- The request names something that is no source text, although it can be
read; or it names nothing that could be read. -/
def Untextual (r : Request) (inputs : Inputs) : Prop :=
  ∃ c file, r = .command c file ∧ ('\x00' ∈ file.toList
    ∨ ∃ bytes, inputs.load file = .ok bytes ∧ sourceText? bytes = none)

/-- The words for a file that cannot be read. -/
def unreadable (file : String) (fault : ReadFault) : String :=
  "Cannot read " ++ file ++ ": " ++ fault.message (.ofText file)

/-- A file that cannot be read ends a command with the usage code and a line
about the file. -/
theorem perform_unreadable {c : Command} {file : String} {fault : ReadFault} {inputs : Inputs}
    (hfile : '\x00' ∉ file.toList) (hload : inputs.load file = .error fault) (showTrace : Bool) :
    (Request.command c file).perform showTrace inputs
      = .ok (.usage, [.errLine (unreadable file fault)]) := by
  have hnul : ¬ file.toList.contains '\x00' = true := by simpa using hfile
  unfold perform Command.onFile
  dsimp only
  rw [if_neg hnul, hload]
  rfl

/-- Once there is source text, there is an exit code. -/
theorem perform_error_iff (r : Request) (showTrace : Bool) (inputs : Inputs) :
    (∃ escape, r.perform showTrace inputs = .error escape) ↔ r.Untextual inputs := by
  unfold Untextual perform
  cases r with
  | prompt | usage | unknown name => simp
  | command c file =>
      unfold Command.onFile
      dsimp only
      by_cases hfile : '\x00' ∈ file.toList
      · have hnul : file.toList.contains '\x00' = true := by simpa using hfile
        rw [if_pos hnul]
        exact ⟨fun _ => ⟨c, file, rfl, .inl hfile⟩, fun _ => ⟨_, rfl⟩⟩
      · have hnul : ¬ file.toList.contains '\x00' = true := by simpa using hfile
        rw [if_neg hnul]
        cases hload : inputs.load file with
        | error fault => simp [hfile, hload]
        | ok bytes =>
            dsimp only
            cases hsource : sourceText? bytes with
            | none => exact ⟨fun _ => ⟨c, file, rfl, .inr ⟨bytes, hload, hsource⟩⟩, fun _ => ⟨_, rfl⟩⟩
            | some source =>
                dsimp only
                rw [c.breakdown?_eq_none source]
                simp [hfile, hload, hsource]

end Request

-- ============================================================ the result

/-- How a command line ends, short of a session at the prompt. Nothing gets
through but three things: a text of digits for the log level that is not a
number, a file name with a NUL, and a source that is not UTF-8. Otherwise
there is one of the four exit codes, and the level is that of the last text
that stands for one, or the default. A file that cannot be read has a message
of its own and the code 1. -/
theorem command_line_ends_or_escapes (env : Variables) (args : List String) (inputs : Inputs) :
    let r := commandLine env args inputs
    let levels := Settings.levelTexts env args
    ((∃ escape, r.result = .error escape)
        ↔ (∃ raw ∈ levels, Misnumbered raw) ∨ (Request.ofLine args).Untextual inputs)
      ∧ (∀ exit trace, r.result = .ok (exit, trace) →
          exit.code ∈ [0, 1, 65, 70] ∧ r.level = some (levels.foldl levelAfter defaultLevel))
      ∧ ∀ c file fault, Request.ofLine args = .command c file → '\x00' ∉ file.toList →
          inputs.load file = .error fault → (∀ raw ∈ levels, ¬ Misnumbered raw) →
          (∃ trace, r.result = .ok (.usage, trace)) ∧ r.stdout = ""
            ∧ r.stderr = Request.unreadable file fault ++ "\n" := by
  intro r levels
  obtain ⟨hbad, hgood⟩ := Settings.heeds_ofArgs env args
  -- levels are read before any file
  by_cases hlevels : ∃ raw ∈ levels, Misnumbered raw
  · obtain ⟨fault, hfault⟩ := hbad hlevels
    have hr : r = ⟨.error (.level fault), none⟩ := by
      show commandLine env args inputs = _
      rw [commandLine, hfault]
    rw [hr]
    refine ⟨⟨fun _ => .inl hlevels, fun _ => ⟨_, rfl⟩⟩, fun exit trace h => (by cases h), ?_⟩
    intro c file fault _ _ _ hnone
    obtain ⟨raw, hmem, hraw⟩ := hlevels
    exact absurd hraw (hnone raw hmem)
  · have hnone : ∀ raw ∈ levels, ¬ Misnumbered raw := fun raw hmem hraw => hlevels ⟨raw, hmem, hraw⟩
    obtain ⟨s, hs, hlevel, hwords⟩ := hgood hnone
    have hr : r = ⟨(Request.ofLine args).perform s.showTrace inputs,
        some (levels.foldl levelAfter defaultLevel)⟩ := by
      show commandLine env args inputs = _
      rw [commandLine, hs]
      dsimp only
      rw [hlevel, hwords]
      rfl
    rw [hr]
    refine ⟨?_, ?_, ?_⟩
    · exact (Request.perform_error_iff _ s.showTrace inputs).trans
        ⟨.inr, fun h => h.resolve_left hlevels⟩
    · intro exit trace _
      exact ⟨by cases exit <;> decide, rfl⟩
    · intro c file fault hrequest hfile hload _
      rw [hrequest, Request.perform_unreadable hfile hload]
      refine ⟨⟨_, rfl⟩, rfl, ?_⟩
      simp [CommandResult.stderr, CommandResult.trace, Trace.stderr, Effect.errLine]

/-- Superscript digits as a level: they are digits, and no number. -/
theorem command_line_escapes_superscript_level :
    let args := ["--log-level=²", "evaluate", "f"]
    let inputs : Inputs := ⟨ByteArray.empty, fun _ => .ok "1".toUTF8⟩
    (∃ raw ∈ Settings.levelTexts [] args, Misnumbered raw)
      ∧ ∃ escape, (commandLine [] args inputs).result = .error escape := by
  intro args inputs
  have hlevels : Settings.levelTexts [] args = ["²"] := by decide +kernel
  have hdigit : Text.isDigitOfAnyScript '²' = true ∧ Text.decimalDigit? '²' = none := by
    decide +kernel
  have hraw : Misnumbered "²" := by
    have htext : "²".toList = ['²'] := by decide +kernel
    rw [Misnumbered, htext, List.forall_mem_singleton]
    exact ⟨List.cons_ne_nil _ _, hdigit.1, .inl ⟨_, List.mem_singleton.2 rfl, hdigit.2⟩⟩
  have hbad : ∃ raw ∈ Settings.levelTexts [] args, Misnumbered raw := by
    rw [hlevels]
    exact ⟨_, List.mem_singleton.2 rfl, hraw⟩
  exact ⟨hbad, (command_line_ends_or_escapes [] args inputs).1.2 (.inl hbad)⟩

/-- A byte that starts no character, in a file that can be read. -/
theorem command_line_escapes_undecodable_file :
    let inputs : Inputs := ⟨ByteArray.empty, fun _ => .ok ⟨#[0xff]⟩⟩
    (commandLine [] ["evaluate", "b"] inputs).result = .error .notText := by
  intro inputs
  rfl

end Lox

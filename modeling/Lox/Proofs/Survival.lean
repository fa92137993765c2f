/-
A session survives whatever is entered.

# At rest

Between two prompts a session is at rest: its variables are in one scope, the
global one, and every variable has a value that can be shown (`AtRest`).
Evaluating a tree of a program keeps it so, with or without a fault. The
scopes are kept in order by any tree (`tidy_eval`), and trees of the right
form store only values that are there (`IsStatement.eval_present`).

# What an entry can do

An entry asks for nothing, for a command, or for a program to be run
(`Intent`). `Changes` says what becomes of the variables in each case. A
program changes them as the trees do that it is parsed to, and where it
fails, as those do that came before the failure. From a session at rest
every entry is answered, and leaves the session at rest (`AtRest.step`). No
error gets through: the parser objects to a token, a fault is one that is
reported, and a value has a text. So by induction over the entries all of
them are answered, in order and once each.
-/
import Lox.Prompt.Loop
import Lox.Proofs.Diagnostics
import Lox.Proofs.ErrorSet
import Lox.Proofs.Present

namespace Lox

/-- Bindings of values that exist can be listed. -/
theorem Session.exists_bindingsText {bindings : List (String × Value)}
    (h : ∀ binding ∈ bindings, binding.2 ≠ .absent) :
    ∃ texts, bindingsText bindings = .ok texts := by
  induction bindings with
  | nil => exact ⟨[], rfl⟩
  | cons binding bindings ih =>
      obtain ⟨x, v⟩ := binding
      rw [List.forall_mem_cons] at h
      obtain ⟨text, htext⟩ := Value.exists_display h.1
      obtain ⟨texts, htexts⟩ := ih h.2
      refine ⟨(x ++ " = " ++ text) :: texts, ?_⟩
      rw [bindingsText, htext, htexts]
      rfl

namespace Prompt

-- ================================================================ intents

/-- What an entry asks for. -/
inductive Intent where
  | nothing
  | command (name arg : String)
  | program (text : String)

/-- An interrupt and a blank text ask for nothing, a text that starts with a
slash for a command, and any other text is a program. -/
def Entry.intent (entry : Entry) : Intent :=
  match entry.text? with
  | none => .nothing
  | some typed =>
      let text := normalize typed
      let stripped := Text.trim text
      if (Text.stripLeft text.toList).isEmpty then .nothing
      else if stripped.toList.head? == some '/' then
        .command (Text.firstWord stripped).1 (Text.firstWord stripped).2
      else .program text

/-- How a prompt ends, and the session after it, by what is asked for. -/
theorem step_eq (s : Session) (entry : Entry) :
    ((step s entry).1, (step s entry).2.2) = match entry.intent with
      | .nothing => (.ok (), s)
      | .command name arg =>
          ((s.command name arg).1.mapError .refused, (s.command name arg).2.2)
      | .program text => ((s.program text).1, (s.program text).2.2) := by
  unfold step Entry.intent
  cases entry.text? with
  | none => rfl
  | some typed =>
      dsimp only
      unfold Session.enter Session.slash?
      dsimp only
      generalize normalize typed = text
      by_cases hblank : (Text.stripLeft text.toList).isEmpty = true
      · rw [if_pos hblank, if_pos hblank]
      · rw [if_neg hblank, if_neg hblank]
        by_cases hslash : ((Text.trim text).toList.head? == some '/') = true
        · rw [if_pos hslash, if_pos hslash]
        · rw [if_neg hslash, if_neg hslash]

-- =========================================================== program text

/-- The trees of a program text as the prompt parses it, and the objection to
what comes behind them if there is one. -/
def parse (text : String) : List Node × Option ParseFailure :=
  if isStatementText text then
    ((Cursor.ofSource text).program.1, (Cursor.ofSource text).program.2.1)
  else
    match (Cursor.ofSource text).expression.1 with
    | .ok e => ([e], none)
    | .error failure => ([], some failure)

/-- The statements of an entry are such as can be entered. -/
theorem isEntered_of_parse (text : String) : ∀ n ∈ (parse text).1, n.IsEntered := by
  unfold parse
  split
  · obtain ⟨ts, c, hss, -, -⟩ := (Cursor.ofSource text).program_takes
    exact fun n hn => .inl (Grammar.isStatement_of_statements hss n hn)
  · split
    · next e he =>
        rw [List.forall_mem_singleton]
        exact .inr (Cursor.isExpression_of_expression he)
    · exact List.forall_mem_nil _

/-- The prompt runs the trees that it parses, and fails at a fault or then at
the objection. -/
theorem runEntry_alike (text : String) (m : Machine) :
    (Session.runEntry text m).1.1 = answer (Node.evalAll (parse text).1 .nil m).1 (parse text).2
      ∧ (Node.evalAll (parse text).1 .nil m).2.Alike (Session.runEntry text m).1.2 := by
  unfold Session.runEntry parse
  split
  · exact Cursor.run_alike Reporter.silent_echo (Cursor.ofSource text) .nil (.refl m)
  · have htold := Machine.alike_tell Reporter.silent_echo m (Cursor.ofSource text).expression.2
    unfold evalSource
    cases hparsed : (Cursor.ofSource text).expression.1 with
    | error failure =>
        dsimp only
        rw [hparsed]
        exact ⟨rfl, htold⟩
    | ok e =>
        obtain ⟨hanswer, halike⟩ := htold.eval e
        dsimp only
        rw [hparsed]
        dsimp only
        rw [Node.evalAll_one, Outcome.asRun_eq, hanswer]
        exact ⟨rfl, halike⟩

/-- A program ends with a value that can be shown, or an error that is
reported. -/
theorem reported_runEntry (text : String) (m : Machine) :
    Reported (Session.runEntry text m).1.1 := by
  unfold Session.runEntry
  split
  · exact reported_runSource Reporter.silent_echo text m
  · exact reported_evalSource text .echo m

/-- The scopes after an entry are those its run leaves. -/
theorem env_program (s : Session) (text : String) :
    (s.program text).2.2.env = (Session.runEntry text s.machine).1.2.env := by
  unfold Session.program
  rcases Session.runEntry text s.machine with ⟨⟨failure | v, m⟩, ranStatements⟩
  · dsimp only
    split <;> rfl
  · dsimp only
    split <;> rfl

/-- So every program is answered. -/
theorem program_ok (s : Session) (text : String) : (s.program text).1 = .ok () := by
  have hreported := reported_runEntry text s.machine
  unfold Session.program
  generalize Session.runEntry text s.machine = ran at hreported
  obtain ⟨⟨failure | v, m⟩, ranStatements⟩ := ran
  · have hfailure : failure.isReported = true := hreported
    dsimp only
    rw [if_pos hfailure]
  · obtain ⟨shown, hshown⟩ := Value.exists_display hreported
    dsimp only
    unfold Session.valueEffects
    rw [hshown]
    split
    · rfl
    · next h => split at h <;> cases h

-- ================================================================ changes

/-- What becomes of the variables of a session, by what is asked for. A
program changes them as the trees do that it is parsed to. If it is rejected,
these are the trees before the objection; at a fault they are the trees
completed before it. -/
inductive Changes (s : Session) : Intent → Environment → Prop where
  | nothing : Changes s .nothing s.env
  | reset (arg : String) : Changes s (.command "/reset" arg) (.stack {})
  | command {name : String} (arg : String) :
      name ≠ "/reset" → Changes s (.command name arg) s.env
  | finished {text : String} {trees : List Node} {v : Value} {m : Machine} :
      parse text = (trees, none) → Node.evalAll trees .nil s.machine = (.ok v, m) →
      Changes s (.program text) m.env
  | rejected {text : String} {trees : List Node} {failure : ParseFailure} {v : Value}
      {m : Machine} :
      parse text = (trees, some failure) → Node.evalAll trees .nil s.machine = (.ok v, m) →
      Changes s (.program text) m.env
  | faulted {text : String} {trees : List Node} {stop : Option ParseFailure} {fault : Fault}
      {v : Value} {m' m : Machine} :
      parse text = (trees, stop) → Node.evalAll trees .nil s.machine = (.error fault, m') →
      Node.evalAll (Node.completedAll trees s.machine) .nil s.machine = (.ok v, m) →
      Changes s (.program text) m.env

/-- An entry changes the scopes as its program does. -/
theorem changes_program (s : Session) (text : String) :
    Changes s (.program text) (s.program text).2.2.env := by
  rw [env_program, (runEntry_alike text s.machine).2.env]
  rcases hparse : parse text with ⟨trees, stop⟩
  rcases hran : Node.evalAll trees .nil s.machine with ⟨fault | v, m⟩
  · obtain ⟨v, m', hcompleted, henv⟩ :=
      Node.exists_evalAll_completedAll trees s.machine .nil
    rw [hran] at henv
    rw [← henv]
    exact .faulted hparse hran hcompleted
  · cases stop with
    | none => exact .finished hparse hran
    | some failure => exact .rejected hparse hran

/-- Short of a reset, only the innermost scope is changed, and no name is
lost. -/
theorem Changes.extends {s : Session} {intent : Intent} {env : Environment}
    (h : Changes s intent env) (hreset : ∀ arg, intent ≠ .command "/reset" arg) :
    s.env.Extends env := by
  cases h with
  | nothing | command _ _ => exact .refl _
  | reset arg => exact absurd rfl (hreset arg)
  | @finished _ trees _ _ _ hran | @rejected _ trees _ _ _ _ hran =>
      have htidy := (Node.tidy_evalAll trees .nil s.machine).env
      rwa [hran] at htidy
  | @faulted _ trees _ _ _ _ _ _ _ hran =>
      have htidy := (Node.tidy_evalAll (Node.completedAll trees s.machine) .nil s.machine).env
      rwa [hran] at htidy

-- ================================================================ at rest

/-- A session between two prompts: its variables are in one scope, the global
one, and all have values. -/
structure AtRest (s : Session) (scope : Scope) : Prop where
  env : s.env = .stack ⟨scope, []⟩
  name : scope.name = globalName
  present : scope.Present

/-- A session starts at rest. -/
theorem atRest_start (showTrace : Bool) :
    AtRest { showTrace } { name := globalName } :=
  ⟨rfl, rfl, fun _ h => by cases h⟩

section

variable {s : Session} {scope : Scope} (h : AtRest s scope)

include h

/-- A change to the innermost scope alone leaves a session at rest. -/
theorem AtRest.of_extends {s' : Session} (hextends : s.env.Extends s'.env)
    (hpresent : s'.env.Present) : ∃ scope', AtRest s' scope' := by
  rw [h.env] at hextends
  cases henv : s'.env with
  | null =>
      rw [henv] at hextends
      cases hextends
  | stack scopes =>
      obtain ⟨innermost, outer⟩ := scopes
      rw [henv] at hextends hpresent
      obtain ⟨rfl, hname, -⟩ := hextends
      exact ⟨innermost, henv, hname.trans h.name, hpresent⟩

/-- At rest, every name in scope has a value. -/
theorem AtRest.env_present : s.env.Present := by
  rw [h.env]
  exact h.present

/-- The scopes of a session at rest can be listed. -/
theorem AtRest.listScopes_ok : (s.listScopes).1 = .ok () := by
  obtain ⟨texts, htexts⟩ := Session.exists_bindingsText h.present
  have hscopes : (⟨scope, []⟩ : ScopeStack).scopes = [scope] := rfl
  unfold Session.listScopes
  rw [h.env]
  dsimp only
  rw [hscopes, Session.scopeLines, htexts]
  rfl

/-- To be at rest is a matter of the scopes alone. -/
theorem AtRest.of_env {s' : Session} (henv : s'.env = s.env) : AtRest s' scope :=
  ⟨henv.trans h.env, h.name, h.present⟩

/-- Every command is answered. -/
theorem AtRest.command (name arg : String) :
    (s.command name arg).1 = .ok () ∧ Changes s (.command name arg) (s.command name arg).2.2.env
      ∧ ∃ scope', AtRest (s.command name arg).2.2 scope' := by
  unfold Session.command
  split
  · next hname => exact ⟨rfl, .command arg (by rw [hname]; decide), scope, h⟩
  · split
    · next hname =>
        have hchanges : Changes s (.command name arg) s.env :=
          .command arg (by rw [hname]; decide)
        split
        · exact ⟨rfl, hchanges, scope, h⟩
        · exact ⟨rfl, hchanges, scope, h.of_env rfl⟩
    · split
      · next hname =>
          rw [hname]
          exact ⟨rfl, .reset arg, _, atRest_start s.showTrace⟩
      · next hreset =>
          split
          · exact ⟨h.listScopes_ok, .command arg hreset, scope, h⟩
          · exact ⟨rfl, .command arg hreset, scope, h⟩

/-- Every program is answered. -/
theorem AtRest.program (text : String) :
    (s.program text).1 = .ok () ∧ Changes s (.program text) (s.program text).2.2.env
      ∧ ∃ scope', AtRest (s.program text).2.2 scope' := by
  have hchanges := changes_program s text
  -- by all trees that were parsed, since of their parts the form is not known
  have hpresent : (s.program text).2.2.env.Present := by
    rw [env_program, (runEntry_alike text s.machine).2.env]
    exact Node.evalAll_present (isEntered_of_parse text) .nil h.env_present
  exact ⟨program_ok s text, hchanges,
    h.of_extends (hchanges.extends fun _ heq => by cases heq) hpresent⟩

/-- Every entry is answered: no error ends the session, the variables change
as the entry asks for, and the session is at rest again. -/
theorem AtRest.step (entry : Entry) :
    (step s entry).1 = .ok () ∧ Changes s entry.intent (step s entry).2.2.env
      ∧ ∃ scope', AtRest (step s entry).2.2 scope' := by
  have hstep := step_eq s entry
  cases hintent : entry.intent with
  | nothing =>
      rw [hintent] at hstep
      obtain ⟨hok, hafter⟩ := Prod.mk.inj hstep
      rw [hafter]
      exact ⟨hok, .nothing, scope, h⟩
  | command name arg =>
      rw [hintent] at hstep
      obtain ⟨hok, hafter⟩ := Prod.mk.inj hstep
      obtain ⟨hanswered, hchanges⟩ := h.command name arg
      rw [hafter]
      exact ⟨by rw [hok, hanswered]; rfl, hchanges⟩
  | program text =>
      rw [hintent] at hstep
      obtain ⟨hok, hafter⟩ := Prod.mk.inj hstep
      obtain ⟨hanswered, hchanges⟩ := h.program text
      rw [hafter]
      exact ⟨hok.trans hanswered, hchanges⟩

end

-- ========================================================== whole sessions

/-- The session after some entries. -/
def after (s : Session) (entries : List Entry) : Session :=
  entries.foldl (fun s entry => (step s entry).2.2) s

/-- A session at rest is at rest after any entries. -/
theorem AtRest.after {s : Session} {scope : Scope} (h : AtRest s scope) (entries : List Entry) :
    ∃ scope', AtRest (after s entries) scope' := by
  induction entries generalizing s scope with
  | nil => exact ⟨scope, h⟩
  | cons entry entries ih =>
      obtain ⟨-, -, scope', h'⟩ := h.step entry
      exact ih h'

/-- All entries are answered, and the answer to each is what the session as
the entries before have left it shows for it. -/
theorem AtRest.stepAll {s : Session} {scope : Scope} (h : AtRest s scope) (entries : List Entry) :
    (stepAll s entries).1 = .ok ()
      ∧ (stepAll s entries).2.length = entries.length + 1
      ∧ ∀ before entry rest, entries = before ++ entry :: rest →
          (stepAll s entries).2[before.length]?
            = some (Prompt.step (Prompt.after s before) entry).2.1 := by
  induction entries generalizing s scope with
  | nil => exact ⟨rfl, rfl, fun before entry rest heq => by simp at heq⟩
  | cons first entries ih =>
      obtain ⟨hok, -, scope', h'⟩ := h.step first
      obtain ⟨hrest, hlength, hshown⟩ := ih h'
      have hfirst : Prompt.step s first
          = (.ok (), (Prompt.step s first).2.1, (Prompt.step s first).2.2) :=
        Prod.ext hok rfl
      rw [Prompt.stepAll, hfirst]
      dsimp only
      refine ⟨hrest, by rw [List.length_cons, hlength, List.length_cons], ?_⟩
      intro before entry rest heq
      cases before with
      | nil =>
          cases heq
          rfl
      | cons other before =>
          cases heq
          exact hshown before entry rest rfl

-- ============================================================== the result

/-- A session survives whatever is entered. From its start, every list of
entries is gone through to the end of the input: each entry is answered once
and in order, by what the session shows for it as the entries before have
left it. After each entry there is one scope, the global one. The variables
have changed as `Changes` says, so that an entry that fails has left the
bindings made by what was evaluated before the failure, and no others. And
unless the entry is a reset, every name that was bound still is. -/
theorem session_survives (showTrace : Bool) (entries : List Entry) :
    let start : Session := { showTrace }
    (run start entries).1 = .ok ()
      ∧ (run start entries).2.length = entries.length + 2
      ∧ ∀ before entry rest, entries = before ++ entry :: rest →
          let s := after start before
          let s' := after start (before ++ [entry])
          (run start entries).2[before.length + 1]? = some (step s entry).2.1
            ∧ (step s entry).1 = .ok ()
            ∧ Changes s entry.intent s'.env
            ∧ ∃ scopes scopes', s.env = .stack scopes ∧ s'.env = .stack scopes'
                ∧ scopes'.depth = 1 ∧ scopes'.scopes.map Scope.name = ["global"]
                ∧ ((∀ arg, entry.intent ≠ .command "/reset" arg) →
                    ∀ x ∈ scopes.innermost.names, x ∈ scopes'.innermost.names) := by
  intro start
  have hstart := atRest_start showTrace
  obtain ⟨hok, hlength, hshown⟩ := hstart.stepAll entries
  refine ⟨hok, congrArg (· + 1) hlength, fun before entry rest heq => ?_⟩
  intro s s'
  -- the session is at rest before every entry
  obtain ⟨scope, hrest⟩ := hstart.after before
  obtain ⟨hanswered, hchanges, scope', hrest'⟩ := hrest.step entry
  have hafter : s' = (step s entry).2.2 := by
    show List.foldl _ _ _ = _
    rw [List.foldl_append]
    rfl
  rw [← hafter] at hchanges hrest'
  refine ⟨hshown before entry rest heq, hanswered, hchanges, ⟨scope, []⟩, ⟨scope', []⟩, hrest.env,
    hrest'.env, rfl, congrArg (fun name => [name]) hrest'.name, fun hreset x hx => ?_⟩
  have hextends := hchanges.extends hreset
  rw [hrest.env, hrest'.env] at hextends
  exact hextends.names.subset hx

/-- A session in which the second of three entries faults behind a
declaration. The names bound by then are still there. -/
theorem session_of_entries :
    let entries : List Entry := [.line "var a = true;", .line "var b = a; missing;", .line "b"]
    let start : Session := {}
    (run start entries).1 = .ok () ∧ (run start entries).2.length = 5
      ∧ (∃ scopes, (after start (entries.take 2)).env = .stack scopes
          ∧ scopes.scopes.map Scope.name = ["global"] ∧ "a" ∈ scopes.innermost.names)
      ∧ ((run start entries).2[3]?.map fun shown => shown.effects.stdout) = some "true\n" := by
  intro entries start
  obtain ⟨hok, hlength, hentry⟩ := session_survives false entries
  refine ⟨hok, hlength, ?_, by decide +kernel⟩
  obtain ⟨-, -, -, scopes, scopes', hscopes, hscopes', -, hname, hkept⟩ :=
    hentry [.line "var a = true;"] (.line "var b = a; missing;") [.line "b"] rfl
  have hbound : (after start [.line "var a = true;"]).env
      = .stack ⟨⟨"global", [("a", .bool true)]⟩, []⟩ := by decide +kernel
  have hprogram : (Entry.line "var b = a; missing;").intent = .program "var b = a; missing;" := by
    rfl
  refine ⟨scopes', hscopes', hname, hkept (fun arg h => ?_) "a" ?_⟩
  · rw [hprogram] at h
    cases h
  · cases hscopes.symm.trans hbound
    exact List.mem_singleton_self _

end Prompt

end Lox

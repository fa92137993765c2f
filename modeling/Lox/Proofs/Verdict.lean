/-
What is wrong with an expression, read off its tokens.

The automaton finds the token that the parser refuses. If there is none, all
tokens have been fed, and what is said at the terminator depends on the
place that the automaton has come to.

Behind an operand the yard holds a draft, so only its targets can be wrong.
Where an operand is missing the fold runs out of items, but it may object to
a target before that. Two cases are to be told apart. No assignment waits:
then the output is a row of drafts, one for each left operand, and the fold
goes through all of them before it finds the row too short (`takeDrafts`).
Or one waits: then it waits at the very bottom, since it binds loosest, and
so it is the root. Its value takes the one operand that was meant as its
target, and nothing is left for a target (`wholeTree_of_assign`).
-/
import Lox.Proofs.Linearisation
import Lox.Proofs.Objections
import Lox.Proofs.Targets

namespace Lox

-- ========================================================== rows of drafts

/-- The postfix form of some drafts one after the other, newest first. -/
def row (ds : List Draft) : List Item :=
  ds.flatMap Draft.items

/-- All drafts have trees. -/
def Sound (ds : List Draft) : Prop :=
  ∀ d ∈ ds, d.node?.isSome

instance (ds : List Draft) : Decidable (Sound ds) :=
  inferInstanceAs (Decidable (∀ d ∈ ds, d.node?.isSome))

/-- Take some drafts off a row, newest first. -/
def takeDrafts : Nat → List Draft → Except SyntaxFault (List Draft)
  | 0, ds => .ok ds
  | _ + 1, [] => .error .missingOperand
  | n + 1, d :: ds => if d.node?.isSome then takeDrafts n ds else .error .badTarget

/-- Drafts are taken one at a time. -/
theorem takeDrafts_succ (n : Nat) (ds : List Draft) :
    takeDrafts (n + 1) ds = (takeDrafts n ds).bind (takeDrafts 1) := by
  induction n generalizing ds with
  | zero => rfl
  | succ n ih =>
      cases ds with
      | nil => rfl
      | cons d ds =>
          rw [takeDrafts, takeDrafts]
          by_cases hd : d.node?.isSome
          · rw [if_pos hd, if_pos hd, ih]
          · rw [if_neg hd, if_neg hd]
            rfl

/-- A row that is one short is gone through to its end. -/
theorem takeDrafts_of_length (ds : List Draft) :
    takeDrafts (ds.length + 1) ds
      = .error (if Sound ds then .missingOperand else .badTarget) := by
  induction ds with
  | nil => rfl
  | cons d ds ih =>
      have hcons : Sound (d :: ds) ↔ d.node?.isSome ∧ Sound ds := List.forall_mem_cons
      rw [List.length_cons, takeDrafts, ih]
      by_cases hd : d.node?.isSome
      · rw [if_pos hd]
        simp only [hcons, hd, true_and]
      · rw [if_neg hd, if_neg fun h => hd (hcons.1 h).1]

namespace Postfix

/-- What the fold leaves, without the tree. -/
def leftover (items : List Item) : Except SyntaxFault (List Item) :=
  (peel items).map Prod.snd

/-- Of a row of drafts, the fold takes the newest. -/
theorem leftover_row (ds : List Draft) : leftover (row ds) = (takeDrafts 1 ds).map row := by
  cases ds with
  | nil =>
      unfold leftover peel
      rw [row, List.flatMap_nil, tree]
      rfl
  | cons d ds =>
      unfold leftover
      rw [row, List.flatMap_cons, d.peel_items, takeDrafts]
      cases d.node? <;> rfl

/-- A unary operator leaves what its operand leaves. -/
theorem leftover_unary (op : UnaryOp) (items : List Item) :
    leftover (.operator (some (.unary op)) :: items) = leftover items := by
  unfold leftover
  rw [peel_unary]
  cases peel items <;> rfl

/-- An operator with two operands takes twice. -/
theorem leftover_binary (op : BinaryOp) (items : List Item) :
    leftover (.operator (some (.binary op)) :: items) = (leftover items).bind leftover := by
  unfold leftover
  rw [peel_binary]
  cases peel items with
  | error fault => rfl
  | ok r =>
      simp only [Except.bind, Except.map]
      cases peel r.2 <;> rfl

/-- Without assignments, operators on top of a row take one draft, and one
more for each that has two sides. -/
theorem leftover_operators {operators : List Operator} (h : .assign ∉ operators)
    (ds : List Draft) :
    leftover (operators.map (.operator ∘ some) ++ row ds)
      = (takeDrafts (operators.countP Operator.isLeftAssociative + 1) ds).map row := by
  induction operators with
  | nil => exact leftover_row ds
  | cons op operators ih =>
      rw [List.mem_cons, not_or] at h
      have ih := ih h.2
      cases op with
      | assign => exact absurd rfl h.1
      | unary op =>
          have hcount : (Operator.unary op :: operators).countP Operator.isLeftAssociative
              = operators.countP Operator.isLeftAssociative :=
            List.countP_cons_of_neg (fun h => (by cases h))
          rw [hcount, ← ih]
          exact leftover_unary op _
      | binary op =>
          have hcount : (Operator.binary op :: operators).countP Operator.isLeftAssociative
              = operators.countP Operator.isLeftAssociative + 1 :=
            List.countP_cons_of_pos rfl
          rw [hcount, takeDrafts_succ]
          refine (leftover_binary op (operators.map (.operator ∘ some) ++ row ds)).trans ?_
          rw [ih]
          cases takeDrafts (operators.countP Operator.isLeftAssociative + 1) ds with
          | error fault => rfl
          | ok ds' => exact leftover_row ds'

/-- A fault of the fold is one of the whole tree. -/
theorem wholeTree_of_leftover {items : List Item} {fault : SyntaxFault}
    (h : leftover items = .error fault) : wholeTree items = .error fault := by
  unfold leftover at h
  rw [wholeTree_eq]
  cases hpeel : peel items with
  | error fault' =>
      rw [hpeel] at h
      cases h
      rfl
  | ok r =>
      rw [hpeel] at h
      cases h

/-- The fold finds an operand missing only where operands are no more than
two-sided operators. -/
theorem weight_of_missingOperand {items : List Item} (h : tree items = .error .missingOperand) :
    weight items ≤ 0 := by
  fun_induction tree items with
  | case1 => exact Int.le_refl 0
  | case3 op rest fault heq ih =>
      cases h
      have := ih heq
      simp only [weight_cons, Item.weight, Operator.weight]
      omega
  | case4 op rest right beforeRight hright heq fault heq' ih ih' =>
      cases h
      have h₁ := weight_of_tree heq
      have h₂ := ih' heq'
      simp only [weight_cons, Item.weight, Operator.weight] at h₁ ⊢
      omega
  | case6 op rest fault heq ih =>
      cases h
      have := ih heq
      simp only [weight_cons, Item.weight, Operator.weight]
      omega
  | case8 rest fault heq ih =>
      cases h
      have := ih heq
      simp only [weight_cons, Item.weight, Operator.weight]
      omega
  | case2 | case5 | case7 | case9 | case10 | case11 => cases h

/-- An assignment over items that count one finds no target: its value takes
that one, and what is left counts nothing. -/
theorem wholeTree_of_assign {items : List Item} (hitems : Grounded items)
    (hweight : weight items = 1) :
    wholeTree (.operator (some .assign) :: items) = .error .badTarget := by
  suffices h : peel (.operator (some .assign) :: items) = .error .badTarget by
    rw [wholeTree_eq, h]
    rfl
  rw [peel_assign]
  unfold peel
  cases htree : tree items with
  | error fault =>
      rcases tree_error htree hitems with rfl | rfl
      · have := weight_of_missingOperand htree
        omega
      · rfl
  | ok v =>
      obtain ⟨value, before, hlt⟩ := v
      have hbefore : weight before = 0 := by
        have := weight_of_tree htree
        dsimp only at this
        omega
      have hground : Grounded before := grounded_of_tree htree hitems
      -- an operand on top would count one more than what is below it
      show peelTarget value before = .error .badTarget
      unfold peelTarget
      split
      · next x below =>
          have hbelow := hground.2.2.weight_nonneg
          simp only [weight_cons, Item.weight] at hbefore
          omega
      · rfl

end Postfix

-- =============================================================== the yard

/-- Where an operand is missing, the output is a row of drafts. If nothing
but signs and binary operators waits, it has one for each binary operator,
and the equals signs so far are all in it. -/
theorem Pending.exists_row {ts : List Token} {operators : List Operator} {output : List Item}
    (h : Pending ts operators output) :
    ∃ ds, output = row ds ∧ (openGroups operators = 0 → .assign ∉ operators →
      ds.length = operators.countP Operator.isLeftAssociative
        ∧ (Targeted .fresh ts ↔ Sound ds)) := by
  induction h with
  | start =>
      exact ⟨[], rfl, fun _ _ => ⟨rfl, fun _ _ hd => absurd hd List.not_mem_nil, fun _ => trivial⟩⟩
  | @opener ts operators output t op hp hop ih =>
      obtain ⟨ds, rfl, hds⟩ := ih
      refine ⟨ds, rfl, fun hopen hassign => ?_⟩
      replace hopen := (openGroups_of_cons hopen).2
      obtain ⟨hlength, hsound⟩ := hds hopen fun hmem => hassign (List.mem_cons_of_mem _ hmem)
      refine ⟨by rw [hlength, List.countP_cons_of_neg fun h => (by cases h)], ?_⟩
      rw [targeted_append, targeted_cons_of_ne (ne_equal_of_opener? hop), hsound]
      exact ⟨fun h => h.1, fun h => ⟨h, trivial⟩⟩
  | @operator ts us operators output t op d hp hd hop _ ih =>
      obtain ⟨ds, rfl, hds⟩ := ih
      refine ⟨d :: ds, rfl, fun hopen hassign => ?_⟩
      -- the operator took one draft as its left operand, so both counts grow by one
      rw [List.mem_cons, not_or] at hassign
      cases op with
      | unary op => exact absurd hop ofKind?_ne_unary
      | assign => exact absurd rfl hassign.1
      | binary op =>
          obtain ⟨hlength, hsound⟩ := hds (openGroups_of_cons hopen).2 hassign.2
          refine ⟨by rw [List.length_cons, hlength, List.countP_cons_of_pos rfl], ?_⟩
          have hd' := hd.targeted_iff (m := Mark.fresh.after ts)
            fun hl => absurd hl (levelOf_ne_assign op)
          rw [targeted_append, targeted_append, targeted_cons_of_ne (ne_equal_of_ofKind? hop),
            hsound, hd']
          have hcons : Sound (d :: ds) ↔ d.node?.isSome ∧ Sound ds := List.forall_mem_cons
          rw [hcons]
          exact ⟨fun h => ⟨h.1.2, h.1.1⟩, fun h => ⟨⟨h.2, h.1⟩, trivial⟩⟩

/-- Below an assignment only assignments and open parentheses wait. -/
theorem Pending.assign_last {ts : List Token} {operators : List Operator} {output : List Item}
    (h : Pending ts operators output) (hopen : openGroups operators = 0)
    (hassign : .assign ∈ operators) : ∃ tops, operators = tops ++ [.assign] := by
  induction h with
  | start => cases hassign
  | @opener ts operators output t op hp hop ih =>
      replace hopen := (openGroups_of_cons hopen).2
      obtain ⟨tops, rfl⟩ := ih hopen (by simpa using hassign)
      exact ⟨.unary op :: tops, rfl⟩
  | @operator ts us operators output t op d hp hd hop hholds ih =>
      replace hopen := (openGroups_of_cons hopen).2
      by_cases hbelow : .assign ∈ operators
      · obtain ⟨tops, rfl⟩ := ih hopen hbelow
        exact ⟨op :: tops, rfl⟩
      · obtain rfl : .assign = op := by simpa [hbelow] using hassign
        cases operators with
        | nil => exact ⟨[], rfl⟩
        | cons w below =>
            have hprec : Operator.assign.precedence ≤ w.precedence := (holds_cons.1 hholds).1
            rw [openGroups_eq_zero_iff] at hopen
            cases w with
            | assign => exact absurd (List.mem_cons_self ..) hbelow
            | binary op => cases op <;> exact absurd hprec (by decide)
            | unary op =>
                cases op with
                | group => exact absurd (List.mem_cons_self ..) hopen
                | positive | negative | not => exact absurd hprec (by decide)

/-- The objection where an operand is missing and no parenthesis is open: to
a target, if one is bad or an assignment waits, and else to the end. -/
theorem Pending.wholeTree_drain {ts : List Token} {operators : List Operator}
    {output : List Item} (h : Pending ts operators output) (hopen : openGroups operators = 0) :
    (Misplaced ts ∨ AssignsOutside ts →
        Postfix.wholeTree (drain operators output) = .error .badTarget)
      ∧ (¬ (Misplaced ts ∨ AssignsOutside ts) →
        Postfix.wholeTree (drain operators output) = .error .missingOperand) := by
  rw [misplaced_iff, assignsOutside_iff, h.assigns_iff hopen]
  by_cases hassign : .assign ∈ operators
  · refine ⟨fun _ => ?_, fun hnone => absurd (.inr hassign) hnone⟩
    -- the assignment waits at the bottom, so it is last in postfix form and folded first
    obtain ⟨tops, rfl⟩ := h.assign_last hopen hassign
    have hflush : Yard.flush (tops ++ [.assign]) output
        = some (drain (tops ++ [.assign]) output) := by
      rw [flush_eq, if_neg (openGroups_eq_zero_iff.1 hopen)]
    have hcount := h.weight_eq
    have hground := grounded_flush hflush h.grounded (by omega)
    have hweight := weight_flush hflush
    have hdrain : drain (tops ++ [.assign]) output
        = .operator (some .assign) :: drain tops output := by
      rw [drain_append]
      rfl
    rw [hdrain] at hground hweight ⊢
    refine Postfix.wholeTree_of_assign hground.2.2 ?_
    rw [weight_cons, hcount] at hweight
    simp only [Item.weight, Operator.weight] at hweight
    omega
  -- one draft more is asked for than there are in the row
  · obtain ⟨ds, rfl, hds⟩ := h.exists_row
    obtain ⟨hlength, hsound⟩ := hds hopen hassign
    have hrev : Operator.assign ∉ operators.reverse := by simpa using hassign
    have hleft := Postfix.leftover_operators hrev ds
    rw [List.countP_reverse, ← hlength, takeDrafts_of_length, List.map_reverse, ← drain_eq] at hleft
    have htree := Postfix.wholeTree_of_leftover hleft
    rw [htree, hsound]
    by_cases hd : Sound ds
    · rw [if_pos hd]
      exact ⟨fun hbad => absurd hbad (by simp [hd, hassign]), fun _ => rfl⟩
    · rw [if_neg hd]
      exact ⟨fun _ => rfl, fun hgood => absurd (.inl hd) hgood⟩

/-- What a yard makes of tokens that were all fed to it. -/
theorem Yard.Reads.tree_verdict {y : Yard} {ts : List Token} {p : Place} (h : y.Reads ts)
    (hat : y.IsAt p) :
    (0 < p.depth → y.tree = .error .unclosedParen)
      ∧ (p.depth = 0 → Misplaced ts ∨ (p.position = .operand ∧ AssignsOutside ts) →
          y.tree = .error .badTarget)
      ∧ (p.depth = 0 → p.position = .operand → ¬ (Misplaced ts ∨ AssignsOutside ts) →
          y.tree = .error .missingOperand)
      ∧ (p.depth = 0 → p.position = .operator → ¬ Misplaced ts → ∃ e, y.tree = .ok e) := by
  have hdepth := hat.depth
  unfold Yard.tree
  -- the automaton's depth is the number of open parentheses that wait
  by_cases hopen : openGroups y.operators = 0
  · have hflush : flush y.operators y.output = some (drain y.operators y.output) := by
      rw [flush_eq, if_neg (openGroups_eq_zero_iff.1 hopen)]
    rw [hflush]
    dsimp only
    refine ⟨fun hpos => by omega, ?_⟩
    unfold Reads at h
    cases hposition : p.position with
    | operand =>
        rw [if_pos (hat.position.2 hposition)] at h
        have hverdict := h.wholeTree_drain hopen
        exact ⟨fun _ hbad => hverdict.1 (hbad.imp_right And.right),
          fun _ _ hgood => hverdict.2 hgood, fun _ heq => (by cases heq)⟩
    | operator =>
        have hexp : ¬ y.expectOperand = true := fun hexp => by
          have := hat.position.1 hexp
          rw [hposition] at this
          cases this
        rw [if_neg hexp] at h
        -- all tokens are one draft, which has a tree if its equals signs are behind targets
        obtain ⟨d, hd, hitems⟩ := h.flush hflush
        have htargeted := hd.targeted_iff (m := .fresh) fun _ => rfl
        rw [hitems, d.wholeTree_items, misplaced_iff, htargeted]
        refine ⟨fun _ hbad => ?_, fun _ heq => (by cases heq), fun _ _ hgood => ?_⟩
        · rcases hbad with hbad | ⟨heq, -⟩
          · cases hn : d.node? with
            | none => rfl
            | some e => simp [hn] at hbad
          · cases heq
        · cases hn : d.node? with
          | none => simp [hn] at hgood
          | some e => exact ⟨e, rfl⟩
  · have hflush : flush y.operators y.output = none := by
      rw [flush_eq, if_pos (by simpa using mt openGroups_eq_zero_iff.2 hopen)]
    rw [hflush]
    exact ⟨fun _ => rfl, fun h0 => absurd (hdepth.trans h0) hopen,
      fun h0 => absurd (hdepth.trans h0) hopen, fun h0 => absurd (hdepth.trans h0) hopen⟩

-- ============================================================ the result

/-- The parse has failed with a message about a token. -/
def Complains (r : Except ParseFailure Node) (text : String) (t : Token) : Prop :=
  ∃ fault, r = .error (.rejected fault (some t)) ∧ fault.message = text

/-- A parse complains with the message of its fault. -/
theorem complains_error_iff {fault : SyntaxFault} {text : String} {t : Token} :
    Complains (.error (.rejected fault (some t))) text t ↔ fault.message = text := by
  constructor
  · rintro ⟨fault', heq, htext⟩
    cases heq
    exact htext
  · intro htext
    exact ⟨fault, rfl, htext⟩

theorem not_complains_ok {e : Node} {text : String} {t : Token} :
    ¬ Complains (.ok e) text t := by
  rintro ⟨fault, heq, -⟩
  cases heq

/-- The outcome of an expression, read off its tokens. Where the automaton is
stuck, parsing objects to that token, and says what was expected. Otherwise
an open parenthesis is the first thing to be missed at the terminator; then a
bad target, and an assignment with a missing operand counts as one unless it
is in parentheses; then a missing operand. What has none of these parses. -/
theorem expression_errors_classified (y : Yard) (c : Cursor) {ts rest : List Token} {z : Token}
    (hts : ∀ t ∈ ts, t.kind ≠ .semicolon ∧ t.kind ≠ .eof)
    (hnum : ∀ t ∈ ts, t.kind = .number → IsNumeral t.lexeme)
    (hz : z.kind = .semicolon ∨ z.kind = .eof)
    (hc : tokensOf c.pending = ts ++ z :: rest) :
    (Place.after {} ts = none →
        ∃ p t, StuckAt ts p t ∧ Complains (y.expression c).1 (p.complaint t) t)
      ∧ ∀ p, Place.after {} ts = some p →
        (Complains (y.expression c).1 "Unclosed left parenthesis" z ↔ 0 < p.depth)
        ∧ (Complains (y.expression c).1
              "Invalid assignment target: left side of assignment is not a variable" z
            ↔ p.depth = 0 ∧ (Misplaced ts ∨ (p.position = .operand ∧ AssignsOutside ts)))
        ∧ (Complains (y.expression c).1 "Malformed expression: missing operand" z
            ↔ p.depth = 0 ∧ p.position = .operand ∧ ¬ (Misplaced ts ∨ AssignsOutside ts))
        ∧ ((∃ e, (y.expression c).1 = .ok e)
            ↔ p.depth = 0 ∧ p.position = .operator ∧ ¬ Misplaced ts) := by
  have hends : ∀ t ∈ ts, t.kind.endsExpression = false := by
    intro t ht
    rw [← Bool.not_eq_true, endsExpression_iff]
    exact not_or.2 (hts t ht)
  obtain ⟨before, after, hpending, rfl, -⟩ := exists_events_of_tokensOf hc
  unfold Yard.expression
  rw [hpending]
  constructor
  · intro hnone
    obtain ⟨us, t, vs, p, hsplit, hafter, hstep⟩ := Place.after_eq_none hnone
    have hstuck : StuckAt (tokensOf before) p t := ⟨us, vs, hsplit, hafter, hstep⟩
    refine ⟨p, t, hstuck, p.objection t, ?_, p.message_objection t⟩
    exact Yard.run_error _ _ hends (y.feedAll_of_stuckAt hstuck hnum)
  · intro p hafter
    obtain ⟨y', hfeed, hat⟩ := y.isAt_restart.feedAll hafter hnum
    have hreads : y'.Reads (tokensOf before) := y.reads_restart.feedAll hfeed
    obtain ⟨hunclosed, htarget, hmissing, hgood⟩ := hreads.tree_verdict hat
    rw [Yard.run_append _ _ hends hfeed, Yard.run, if_pos (endsExpression_iff.2 hz)]
    dsimp only
    have hfault : ∀ fault, y'.tree = .error fault →
        y'.finish z = .error (.rejected fault (some z)) := by
      intro fault htree
      rw [Yard.finish, htree]
    have hunclosedText : SyntaxFault.unclosedParen.message = "Unclosed left parenthesis" := rfl
    have htargetText : SyntaxFault.badTarget.message
        = "Invalid assignment target: left side of assignment is not a variable" := rfl
    have hmissingText : SyntaxFault.missingOperand.message
        = "Malformed expression: missing operand" := rfl
    -- in the order of the checks: the parenthesis first, then the targets
    by_cases hopen : 0 < p.depth
    · have hne : p.depth ≠ 0 := by omega
      rw [hfault _ (hunclosed hopen)]
      simp [complains_error_iff, hunclosedText, hopen, hne]
    · have hzero : p.depth = 0 := by omega
      by_cases hbad : Misplaced (tokensOf before)
          ∨ (p.position = .operand ∧ AssignsOutside (tokensOf before))
      · rw [hfault _ (htarget hzero hbad)]
        have hmissing' : p.position = .operand → ¬ Misplaced (tokensOf before) →
            AssignsOutside (tokensOf before) :=
          fun _ hplaced => (hbad.resolve_left hplaced).2
        have hgood' : p.position = .operator → Misplaced (tokensOf before) := by
          intro hposition
          simpa [hposition] using hbad
        simpa [complains_error_iff, htargetText, hzero, hbad] using ⟨hmissing', hgood'⟩
      · cases hposition : p.position with
        | operand =>
            simp only [hposition, true_and] at hbad
            rw [hfault _ (hmissing hzero hposition hbad)]
            simp [complains_error_iff, hmissingText, hzero, hbad]
        | operator =>
            simp only [hposition, reduceCtorEq, false_and, or_false] at hbad
            obtain ⟨e, htree⟩ := hgood hzero hposition hbad
            rw [Yard.finish, htree]
            simp [not_complains_ok, hzero, hbad]

/-- The tokens of `a = b +;`: the end takes `a` and `b` for the sum, and finds
nothing to assign to. -/
theorem errors_classified_unfinished_assignment :
    let ts : List Token := [⟨.identifier, "a", none, 0, 1, 1⟩, ⟨.equal, "=", none, 2, 3, 1⟩,
      ⟨.identifier, "b", none, 4, 5, 1⟩, ⟨.plus, "+", none, 6, 7, 1⟩]
    let z : Token := ⟨.semicolon, ";", none, 7, 8, 1⟩
    (∀ t ∈ ts, t.kind ≠ .semicolon ∧ t.kind ≠ .eof)
      ∧ (∀ t ∈ ts, t.kind = .number → IsNumeral t.lexeme)
      ∧ (z.kind = .semicolon ∨ z.kind = .eof)
      ∧ tokensOf (Cursor.ofTokens (ts ++ [z])).pending = ts ++ [z]
      ∧ Place.after {} ts = some ⟨.operand, 0⟩
      ∧ Complains ((({} : Yard).expression (Cursor.ofTokens (ts ++ [z]))).1)
          "Invalid assignment target: left side of assignment is not a variable" z := by
  intro ts z
  have hts : ∀ t ∈ ts, t.kind ≠ .semicolon ∧ t.kind ≠ .eof := by decide
  have hnum : ∀ t ∈ ts, t.kind = .number → IsNumeral t.lexeme := by
    intro t ht hk
    exact absurd hk (by revert t; decide)
  have hz : z.kind = .semicolon ∨ z.kind = .eof := .inl rfl
  have hc : tokensOf (Cursor.ofTokens (ts ++ [z])).pending = ts ++ [z] := rfl
  have hafter : Place.after {} ts = some ⟨.operand, 0⟩ := rfl
  have houtside : AssignsOutside ts :=
    ⟨ts.take 1, ⟨.equal, "=", none, 2, 3, 1⟩, ts.drop 2, ⟨.operator, 0⟩, rfl, rfl, rfl, rfl⟩
  have h := (expression_errors_classified {} _ hts hnum hz hc).2 _ hafter
  exact ⟨hts, hnum, hz, hc, hafter, h.2.1.2 ⟨rfl, .inr ⟨rfl, houtside⟩⟩⟩

end Lox

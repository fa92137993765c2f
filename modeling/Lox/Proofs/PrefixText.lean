/-
The prefix text of a parsed expression determines it.

`Writes b e cs` says that the characters `cs` are the text of the tree `e`, and
it says where an assignment may stand, as the flag: at the top, under a group,
and under another assignment. Everywhere else there is a form in parentheses
or an atom, a name or a literal. An atom has no blank and no parenthesis in
it, and so it ends where one comes behind it.

What comes behind an assignment is a closing parenthesis or nothing, for a blank
comes only behind the left operand of a binary operator. That is all the
decoding needs (`Writes.unique`): a name with a blank behind it is the target
of an assignment where one may stand, and elsewhere a whole operand. A
prefix and a binary operator with the same symbol are told apart by what
comes behind their first operand.
-/
import Lox.Proofs.CommandLine
import Lox.Proofs.LiteralText
import Lox.Proofs.Parentheses
import Lox.Proofs.Scopeless
import Lox.Proofs.Targets

namespace Lox

open Grammar (Level Derives Expression)

-- ================================================================= atoms

/-- The characters of names and literals, as far as they matter: all but those
that end them. -/
def isAtomChar (c : Char) : Bool :=
  c ≠ ' ' && c ≠ '(' && c ≠ ')'

/-- A text with such characters only, and with one at least. -/
def IsAtom (s : String) : Prop :=
  s.toList ≠ [] ∧ s.toList.all isAtomChar = true

/-- Runs that stop where a character of another class comes are taken apart in
one way. -/
theorem atoms_eq {p : Char → Bool} {cs ds r r' : List Char} (hcs : cs.all p = true)
    (hds : ds.all p = true) (hr : r.head?.any p = false) (hr' : r'.head?.any p = false)
    (h : cs ++ r = ds ++ r') : cs = ds ∧ r = r' := by
  have heq : cs = ds := by
    rw [← Scanner.takeWhile_apart hcs hr, h, Scanner.takeWhile_apart hds hr']
  subst heq
  exact ⟨rfl, List.append_cancel_left h⟩

/-- The characters of words occur in atoms. -/
theorem isAtomChar_of_isWordChar {c : Char} (h : Scanner.isWordChar c = true) :
    isAtomChar c = true := by
  have hne {d : Char} (hd : Scanner.isWordChar d = false) : c ≠ d := by
    rintro rfl
    rw [h] at hd
    cases hd
  simp [isAtomChar, hne (d := ' ') rfl, hne (d := '(') rfl, hne (d := ')') rfl]

theorem IsWord.isAtom {s : String} (h : IsWord s.toList) : IsAtom s := by
  refine ⟨?_, List.all_eq_true.2 fun c hc =>
    isAtomChar_of_isWordChar (List.all_eq_true.1 h.all c hc)⟩
  obtain ⟨c, rest, hs, -⟩ := h
  rw [hs]
  exact List.cons_ne_nil _ _

namespace IsAtom

variable {s s' : String} {r r' : List Char}

/-- Two atoms in front, each with its end behind it, are the same. -/
theorem append_eq (h : IsAtom s) (h' : IsAtom s') (hr : r.head?.any isAtomChar = false)
    (hr' : r'.head?.any isAtomChar = false) (heq : s.toList ++ r = s'.toList ++ r') :
    s = s' ∧ r = r' := by
  obtain ⟨hs, hrest⟩ := atoms_eq h.2 h'.2 hr hr' heq
  exact ⟨String.toList_inj.1 hs, hrest⟩

/-- No atom begins with a parenthesis. -/
theorem append_ne_paren (h : IsAtom s) : s.toList ++ r ≠ '(' :: r' := by
  obtain ⟨hne, hall⟩ := h
  obtain ⟨c, cs, hs⟩ := List.exists_cons_of_ne_nil hne
  rw [hs] at hall ⊢
  intro heq
  obtain ⟨rfl, -⟩ := List.cons.inj heq
  cases hall

end IsAtom

theorem IsName.isAtom {x : String} (h : IsName x) : IsAtom x :=
  h.1.isAtom

/-- The literals with a text of their own. A string may look like anything, and
infinity and not-a-number like names. -/
def Value.IsPlain : Value → Prop
  | .string _ => False
  | .real x => x.isFinite = true
  | _ => True

/-- The characters of a plain number text occur in atoms. -/
theorem Double.IsPlain.isAtomChar {c : Char} (h : Double.IsPlain c) : isAtomChar c = true :=
  h.elim (P := fun c => Lox.isAtomChar c = true) (by decide)

namespace Double

variable {x : Double} (hx : x.isFinite = true)

include hx

/-- The text of a finite number is an atom. -/
theorem isAtom_literalText : IsAtom x.literalText := by
  refine ⟨?_, List.all_eq_true.2 fun c hc => (isPlain_of_mem_literalText hx hc).isAtomChar⟩
  obtain ⟨c, cs, htext, -, -⟩ := exists_literalText_eq hx
  rw [htext, signed, String.toList_ofList]
  split <;> exact List.cons_ne_nil _ _

/-- The text of a number is not a word. -/
theorem not_isWord_literalText : ¬ IsWord x.literalText.toList := by
  obtain ⟨c, cs, htext, hc, -⟩ := exists_literalText_eq hx
  rintro ⟨d, rest, hword, hstart, -⟩
  rw [htext, signed, String.toList_ofList] at hword
  split at hword
  · obtain ⟨rfl, -⟩ := List.cons.inj hword
    cases hstart
  · obtain ⟨rfl, -⟩ := List.cons.inj hword
    have hdigit : Scanner.isDigit c = false := (Scanner.ne_quote_of_isWordStart hstart).2
    exact Bool.false_ne_true (hdigit.symm.trans hc)

end Double

namespace Value

variable {v w : Value} {s : String}

/-- A literal that is no number is written as a reserved word. -/
theorem literalText_reserved (hv : v.IsPlain) (hne : ∀ x, v ≠ .real x)
    (h : v.literalText = .ok s) : IsWord s.toList ∧ ∃ kind : Kind, kind.word? = some s := by
  cases v with
  | string _ => cases hv
  | real x => exact absurd rfl (hne x)
  | absent => cases h
  | nil => cases h; exact ⟨⟨'n', _, rfl, rfl, rfl⟩, .nilKw, rfl⟩
  | bool b =>
      cases h
      cases b with
      | true => exact ⟨⟨'t', _, rfl, rfl, rfl⟩, .trueKw, rfl⟩
      | false => exact ⟨⟨'f', _, rfl, rfl, rfl⟩, .falseKw, rfl⟩

/-- The text of a plain literal is an atom. -/
theorem isAtom_literalText (hv : v.IsPlain) (h : v.literalText = .ok s) : IsAtom s := by
  by_cases hreal : ∃ x, v = .real x
  · obtain ⟨x, rfl⟩ := hreal
    cases h
    exact Double.isAtom_literalText hv
  · exact (literalText_reserved hv (not_exists.1 hreal) h).1.isAtom

/-- The text of a literal is not a name. -/
theorem not_isName_literalText (hv : v.IsPlain) (h : v.literalText = .ok s) : ¬ IsName s := by
  rintro ⟨hword, hname⟩
  by_cases hreal : ∃ x, v = .real x
  · obtain ⟨x, rfl⟩ := hreal
    cases h
    exact Double.not_isWord_literalText hv hword
  · obtain ⟨-, kind, hkind⟩ := literalText_reserved hv (not_exists.1 hreal) h
    exact hname kind hkind

theorem boolText_inj {a b : Bool} (h : boolText a = boolText b) : a = b := by
  revert h
  cases a <;> cases b <;> decide

/-- Plain literals with the same text are the same. -/
theorem eq_of_literalText (hv : v.IsPlain) (hw : w.IsPlain) (h : v.literalText = .ok s)
    (h' : w.literalText = .ok s) : v = w := by
  -- A number against a literal that is none: only the latter is a word.
  have hapart {u : Value} {x : Double} (hx : x.isFinite = true) (hu : u.IsPlain)
      (hne : ∀ y, u ≠ .real y) (htext : u.literalText = .ok x.literalText) : False :=
    Double.not_isWord_literalText hx (literalText_reserved hu hne htext).1
  cases v with
  | string _ => cases hv
  | absent => cases h
  | real x =>
      cases h
      by_cases hreal : ∃ y, w = .real y
      · obtain ⟨y, rfl⟩ := hreal
        rw [Double.eq_of_literalText hv hw (Except.ok.inj h').symm]
      · exact (hapart hv hw (not_exists.1 hreal) h').elim
  | nil =>
      cases w with
      | string _ => cases hw
      | absent => cases h'
      | nil => rfl
      | bool b => exact absurd (Except.ok.inj (h.trans h'.symm)) (by cases b <;> decide)
      | real y => cases h'; exact (hapart hw hv (by simp) h).elim
  | bool b =>
      cases w with
      | string _ => cases hw
      | absent => cases h'
      | nil => exact absurd (Except.ok.inj (h'.trans h.symm)) (by cases b <;> decide)
      | bool c => rw [boolText_inj (Except.ok.inj (h.trans h'.symm))]
      | real y => cases h'; exact (hapart hw hv (by simp) h).elim

end Value

-- ============================================================= operators

theorem UnaryOp.blankless_symbol (op : UnaryOp) : op.symbol.toList.all (· ≠ ' ') = true := by
  cases op <;> decide

theorem BinaryOp.blankless_symbol (op : BinaryOp) : op.symbol.toList.all (· ≠ ' ') = true := by
  cases op <;> decide

/-- A symbol in front, with the blank behind it, is one symbol only. -/
theorem symbol_append_eq {s s' : String} {r r' : List Char}
    (hs : s.toList.all (· ≠ ' ') = true) (hs' : s'.toList.all (· ≠ ' ') = true)
    (h : s.toList ++ ' ' :: r = s'.toList ++ ' ' :: r') : s = s' ∧ r = r' := by
  obtain ⟨hsymbol, hrest⟩ := atoms_eq hs hs' rfl rfl h
  exact ⟨String.toList_inj.1 hsymbol, (List.cons.inj hrest).2⟩

/-- The symbol of a group is that of no binary operator. -/
theorem UnaryOp.ne_group_of_symbol_eq {op : UnaryOp} {op' : BinaryOp}
    (h : op.symbol = op'.symbol) : op ≠ .group := by
  rintro rfl
  revert h
  cases op' <;> decide

-- =============================================================== writing

/-- `Writes b e cs`: the tree is written in prefix form by the characters. The
flag says that an assignment may stand here. -/
inductive Writes : Bool → Node → List Char → Prop where
  | literal {b : Bool} {v : Value} {s : String} :
      v.IsPlain → v.literalText = .ok s → Writes b (.literal v) s.toList
  | name {b : Bool} {x : String} : IsName x → Writes b (.variable x) x.toList
  | unary {b : Bool} {op : UnaryOp} {e : Node} {cs : List Char} :
      Writes (decide (op = .group)) e cs →
      Writes b (.unary (.unary op) e) ('(' :: (op.symbol.toList ++ ' ' :: (cs ++ [')'])))
  | binary {b : Bool} {op : BinaryOp} {l r : Node} {cs ds : List Char} :
      Writes false l cs → Writes false r ds →
      Writes b (.binary (.binary op) l r)
        ('(' :: (op.symbol.toList ++ ' ' :: (cs ++ ' ' :: (ds ++ [')']))))
  | assignment {x : String} {e : Node} {cs : List Char} :
      IsName x → Writes true e cs →
      Writes true (.assignment x e) (x.toList ++ ' ' :: '=' :: ' ' :: cs)

/-- What can come behind the text of a tree. -/
def Stops (b : Bool) (r : List Char) : Prop :=
  ∀ c ∈ r.head?, c = ')' ∨ (b = false ∧ c = ' ')

/-- No atom goes on where a tree stops. -/
theorem Stops.atom {b : Bool} {r : List Char} (h : Stops b r) : r.head?.any isAtomChar = false := by
  cases r with
  | nil => rfl
  | cons c r =>
      rcases h c rfl with rfl | ⟨-, rfl⟩ <;> rfl

theorem stops_paren (b : Bool) (r : List Char) : Stops b (')' :: r) := by
  rintro c ⟨⟩
  exact .inl rfl

theorem stops_blank (r : List Char) : Stops false (' ' :: r) := by
  rintro c ⟨⟩
  exact .inr ⟨rfl, rfl⟩

/-- Where an assignment may stand, no blank comes behind. -/
theorem not_stops_blank {r : List Char} : ¬ Stops true (' ' :: r) := by
  intro h
  rcases h ' ' rfl with h | ⟨h, -⟩ <;> cases h

namespace Writes

variable {b : Bool} {e e' : Node} {cs cs' r r' : List Char}

/-- What is written as an operand may stand where an assignment may. -/
theorem loosen (h : Writes false e cs) : Writes b e cs := by
  cases h with
  | literal hv hs => exact .literal hv hs
  | name hx => exact .name hx
  | unary he => exact .unary he
  | binary hl hr => exact .binary hl hr

/-- Where the text of a literal stands there is that literal. -/
theorem literal_unique {v : Value} {s : String} (hv : v.IsPlain) (hs : v.literalText = .ok s)
    (h' : Writes b e' cs') (hr : Stops b r) (hr' : Stops b r')
    (heq : s.toList ++ r = cs' ++ r') : .literal v = e' ∧ r = r' := by
  have hatom := Value.isAtom_literalText hv hs
  have hname := Value.not_isName_literalText hv hs
  cases h' with
  | literal hv' hs' =>
      obtain ⟨rfl, rfl⟩ :=
        hatom.append_eq (Value.isAtom_literalText hv' hs') hr.atom hr'.atom heq
      rw [Value.eq_of_literalText hv hv' hs hs']
      exact ⟨rfl, rfl⟩
  | name hx =>
      obtain ⟨rfl, -⟩ := hatom.append_eq hx.isAtom hr.atom hr'.atom heq
      exact absurd hx hname
  | unary | binary => exact absurd heq hatom.append_ne_paren
  | assignment hx =>
      rw [List.append_assoc] at heq
      obtain ⟨rfl, -⟩ := hatom.append_eq hx.isAtom hr.atom rfl heq
      exact absurd hx hname

/-- Where a name stands there is that name, unless a blank comes behind it where
none comes behind a tree. -/
theorem name_unique {x : String} (hx : IsName x) (h' : Writes b e' cs') (hr : Stops b r)
    (hr' : Stops b r') (heq : x.toList ++ r = cs' ++ r') : .variable x = e' ∧ r = r' := by
  cases h' with
  | literal hv' hs' => cases (literal_unique hv' hs' (.name hx) hr' hr heq.symm).1
  | name hx' =>
      obtain ⟨rfl, rfl⟩ := hx.isAtom.append_eq hx'.isAtom hr.atom hr'.atom heq
      exact ⟨rfl, rfl⟩
  | unary | binary => exact absurd heq hx.isAtom.append_ne_paren
  | assignment hx' =>
      -- The blank before the equals sign would end the name.
      rw [List.append_assoc] at heq
      obtain ⟨-, rfl⟩ := hx.isAtom.append_eq hx'.isAtom hr.atom rfl heq
      exact absurd hr not_stops_blank

/-- A text is the text of one tree, and ends in one place, if what comes behind
can come behind a tree. -/
theorem unique (h : Writes b e cs) (h' : Writes b e' cs') (hr : Stops b r) (hr' : Stops b r')
    (heq : cs ++ r = cs' ++ r') : e = e' ∧ r = r' := by
  induction h generalizing e' cs' r r' with
  | literal hv hs => exact literal_unique hv hs h' hr hr' heq
  | name hx => exact name_unique hx h' hr hr' heq
  | @unary _ op _ _ he ih =>
      cases h' with
      | literal hv' hs' => cases (literal_unique hv' hs' (.unary he) hr' hr heq.symm).1
      | name hx' => cases (name_unique hx' (.unary he) hr' hr heq.symm).1
      | @unary _ op' _ _ he' =>
          obtain ⟨hsymbol, hrest⟩ :=
            symbol_append_eq op.blankless_symbol op'.blankless_symbol (by simpa using heq)
          obtain rfl : op = op' := UnaryOp.symbol_inj hsymbol
          obtain ⟨rfl, hbehind⟩ :=
            ih he' (stops_paren _ r) (stops_paren _ r') (by simpa using hrest)
          exact ⟨rfl, (List.cons.inj hbehind).2⟩
      | @binary _ op' _ _ _ ds' hleft' =>
          -- The only operand of one is the left operand of the other.
          obtain ⟨hsymbol, hrest⟩ :=
            symbol_append_eq op.blankless_symbol op'.blankless_symbol (by simpa using heq)
          rw [decide_eq_false (UnaryOp.ne_group_of_symbol_eq hsymbol)] at ih
          obtain ⟨-, hbehind⟩ := ih hleft' (stops_paren _ r) (stops_blank (ds' ++ ')' :: r'))
            (by simpa using hrest)
          cases hbehind
      | assignment hx' =>
          rw [List.append_assoc] at heq
          exact absurd heq.symm hx'.isAtom.append_ne_paren
  | @binary _ op _ _ _ ds hleft hright ihl ihr =>
      cases h' with
      | literal hv' hs' =>
          cases (literal_unique hv' hs' (.binary hleft hright) hr' hr heq.symm).1
      | name hx' => cases (name_unique hx' (.binary hleft hright) hr' hr heq.symm).1
      | @unary _ op' _ _ he' =>
          obtain ⟨hsymbol, hrest⟩ :=
            symbol_append_eq op.blankless_symbol op'.blankless_symbol (by simpa using heq)
          rw [decide_eq_false (UnaryOp.ne_group_of_symbol_eq hsymbol.symm)] at he'
          obtain ⟨-, hbehind⟩ := ihl he' (stops_blank (ds ++ ')' :: r)) (stops_paren _ r')
            (by simpa using hrest)
          cases hbehind
      | @binary _ op' _ _ _ ds' hleft' hright' =>
          obtain ⟨hsymbol, hrest⟩ :=
            symbol_append_eq op.blankless_symbol op'.blankless_symbol (by simpa using heq)
          obtain rfl : op = op' := BinaryOp.symbol_inj hsymbol
          obtain ⟨rfl, hbehind⟩ := ihl hleft' (stops_blank (ds ++ ')' :: r))
            (stops_blank (ds' ++ ')' :: r')) (by simpa using hrest)
          obtain ⟨rfl, hbehind⟩ := ihr hright' (stops_paren _ r) (stops_paren _ r')
            (by simpa using (List.cons.inj hbehind).2)
          exact ⟨rfl, (List.cons.inj hbehind).2⟩
      | assignment hx' =>
          rw [List.append_assoc] at heq
          exact absurd heq.symm hx'.isAtom.append_ne_paren
  | assignment hx he ih =>
      cases h' with
      | literal hv' hs' => cases (literal_unique hv' hs' (.assignment hx he) hr' hr heq.symm).1
      | name hx' => cases (name_unique hx' (.assignment hx he) hr' hr heq.symm).1
      | unary | binary =>
          rw [List.append_assoc] at heq
          exact absurd heq hx.isAtom.append_ne_paren
      | assignment hx' he' =>
          rw [List.append_assoc, List.append_assoc] at heq
          obtain ⟨rfl, hrest⟩ := hx.isAtom.append_eq hx'.isAtom rfl rfl heq
          obtain ⟨rfl, rfl⟩ := ih he' hr hr' (by simpa using hrest)
          exact ⟨rfl, rfl⟩

end Writes

-- =================================================================== texts

/-- The literals in the tree all have a text of their own. -/
def Node.HasPlainLiterals (e : Node) : Prop :=
  ∀ v, Node.literal v ∈ e.subtrees → v.IsPlain

/-- The literals of a part are literals of the tree. -/
theorem Node.HasPlainLiterals.of_subset {e part : Node} (h : e.HasPlainLiterals)
    (hpart : part.subtrees ⊆ e.subtrees) : part.HasPlainLiterals :=
  fun v hv => h v (hpart hv)

/-- The text of a tree that the grammar derives is written as `Writes` says: an
assignment stands where one is derived. -/
theorem Grammar.Derives.exists_writes {l : Level} {ts : List Token} {e : Node} (h : Derives l ts e)
    (hnames : ∀ t ∈ ts, t.kind = .identifier → IsName t.lexeme) (hplain : e.HasPlainLiterals) :
    ∃ text, e.format = .ok text ∧ Writes (decide (l = .assign)) e text.toList := by
  induction h with
  | @assignment x eq ts value hx _ _ ih =>
      obtain ⟨text, htext, hwrites⟩ := ih (fun t ht => hnames t (by simp [ht]))
        (hplain.of_subset (by simp [Node.subtrees]))
      refine ⟨x.lexeme ++ " = " ++ text, by rw [Node.format, htext]; rfl, ?_⟩
      simpa using Writes.assignment (hnames x (by simp) hx) hwrites
  | @binary l op t us vs left right ht _ _ ihl ihr =>
      -- no operand of the operator may be an assignment without a group
      have hl : decide (l = .assign) = false := by
        obtain ⟨-, rfl⟩ := Grammar.binary?_eq_some_iff.1 ht
        exact decide_eq_false (levelOf_ne_assign op)
      obtain ⟨x, hx, hleft⟩ := ihl (fun t ht => hnames t (by simp [ht]))
        (hplain.of_subset (by simp [Node.subtrees]))
      obtain ⟨y, hy, hright⟩ := ihr (fun t ht => hnames t (by simp [ht]))
        (hplain.of_subset (by simp [Node.subtrees]))
      rw [decide_eq_false (tighter_ne_assign l)] at hright
      rw [hl] at hleft ⊢
      refine ⟨"(" ++ op.symbol ++ " " ++ x ++ " " ++ y ++ ")",
        by rw [Node.format, hx, hy]; rfl, ?_⟩
      have hwrites : Writes false (.binary (.binary op) left right) _ := .binary hleft hright
      simpa using hwrites
  | @unary op t ts operand ht _ ih =>
      obtain ⟨x, hx, hoperand⟩ := ih (fun t ht => hnames t (by simp [ht]))
        (hplain.of_subset (by simp [Node.subtrees]))
      refine ⟨"(" ++ op.symbol ++ " " ++ x ++ ")", by rw [Node.format, hx]; rfl, ?_⟩
      have hop : decide (op = .group) = false :=
        decide_eq_false fun heq => Grammar.ne_group_of_prefixed? ht (congrArg Operator.unary heq)
      have hwrites : Writes (decide (op = .group)) operand x.toList := by rwa [hop]
      simpa using Writes.unary hwrites
  | @literal t v hv =>
      obtain ⟨s, hs⟩ := Value.exists_literalText (literal?_ne_absent hv)
      refine ⟨s, by rw [Node.format, hs], .literal (hplain v (by simp [Node.subtrees])) hs⟩
  | @name t ht => exact ⟨t.lexeme, by rw [Node.format], .name (hnames t (by simp) ht)⟩
  | @group _ _ _ e _ _ _ ih =>
      obtain ⟨x, hx, hoperand⟩ := ih (fun t ht => hnames t (by simp [ht]))
        (hplain.of_subset (by simp [Node.subtrees]))
      refine ⟨"(" ++ UnaryOp.group.symbol ++ " " ++ x ++ ")", by rw [Node.format, hx]; rfl, ?_⟩
      have hwrites : Writes (decide (UnaryOp.group = .group)) e x.toList := hoperand
      simpa using Writes.unary hwrites
  | @tighter l _ _ _ ih =>
      obtain ⟨text, htext, hwrites⟩ := ih hnames hplain
      rw [decide_eq_false (tighter_ne_assign l)] at hwrites
      exact ⟨text, htext, hwrites.loosen⟩

-- ============================================================= the result

/-- What a scanner reads as a name is a name. -/
theorem Token.Legible.isName {t : Token} (h : t.Legible) (hkind : t.kind = .identifier) :
    IsName t.lexeme := by
  obtain ⟨s, s', -, hscans⟩ := h
  obtain ⟨cs, -, hspells, ht, -⟩ := hscans.spells
  have hlexeme : t.lexeme = String.ofList cs := congrArg Token.lexeme ht
  rw [hlexeme, IsName, String.toList_ofList]
  generalize t.kind = kind, t.literal = literal at hspells hkind
  cases hspells with
  | name hword hname => exact ⟨hword, hname⟩
  | string _ | number _ _ => cases hkind
  | reserved _ hword =>
      rw [hkind] at hword
      cases hword
  | mark hmem =>
      rw [hkind] at hmem
      exact absurd hmem (by simp [markTable])

/-- The tree is one that a parser of expressions can return, at the front of a
text or at a later place. -/
def Node.IsParsed (e : Node) : Prop :=
  ∃ (source : String) (y : Yard) (c : Cursor),
    c.pending <:+ scan source ∧ (y.expression c).1 = .ok e

/-- A parsed tree with plain literals has a text, which writes it. -/
theorem Node.IsParsed.exists_writes {e : Node} (h : e.IsParsed) (hplain : e.HasPlainLiterals) :
    ∃ text, e.format = .ok text ∧ Writes true e text.toList := by
  obtain ⟨source, y, c, hsource, he⟩ := h
  obtain ⟨before, z, after, hpending, -, hderives, -⟩ :=
    expression_eq_ok_iff.1 (Prod.ext he rfl : y.expression c = (.ok e, (y.expression c).2))
  refine hderives.exists_writes (fun t ht hkind => ?_) hplain
  have hpending : t ∈ tokensOf c.pending := by
    rw [hpending, tokensOf_append]
    exact List.mem_append_left _ ht
  have hmem : t ∈ tokenize source := (hsource.sublist.filterMap Event.token?).subset hpending
  exact (legible_of_mem_tokenize hmem (by rw [hkind]; decide)).isName hkind

/-- A text in prefix form determines the tree. An expression that was parsed has
such a text, and if there are no strings in it, and no numbers that are not
finite, it is the only expression like it with that text. -/
theorem prefix_text_determines_tree {e e' : Node} (he : e.IsParsed) (he' : e'.IsParsed)
    (hplain : e.HasPlainLiterals) (hplain' : e'.HasPlainLiterals) :
    (∃ text, e.format = .ok text) ∧ (e.format = e'.format → e = e') := by
  obtain ⟨text, htext, hwrites⟩ := he.exists_writes hplain
  obtain ⟨text', htext', hwrites'⟩ := he'.exists_writes hplain'
  refine ⟨⟨text, htext⟩, fun heq => ?_⟩
  rw [htext, htext'] at heq
  obtain rfl := Except.ok.inj heq
  have hend : Stops true [] := by
    rintro c ⟨⟩
  exact (hwrites.unique hwrites' hend hend rfl).1

/-- Tokens of a text that derive an expression are parsed as it. -/
theorem Node.IsParsed.of_tokens {source : String} {ts : List Token} {z : Token} {e : Node}
    (hscan : scan source = (ts ++ [z]).map .token) (hz : z.kind.endsExpression = true)
    (he : Expression ts e) : e.IsParsed := by
  rw [List.map_append] at hscan
  rw [← tokensOf_map_token ts] at he
  have hparse : Yard.expression {} (Cursor.ofSource source) = (.ok e, _) :=
    expression_eq_ok_iff.2 ⟨_, z, [], hscan, hz, he, rfl⟩
  exact ⟨source, {}, Cursor.ofSource source, List.suffix_rfl, congrArg Prod.fst hparse⟩

/-- A minus before a group that has an assignment to `group` in it, and a minus
behind `group`. -/
theorem prefix_text_determines_tree_minus :
    let one : Double := ⟨0x3FF0000000000000⟩
    let e : Node := .unary (.unary .negative)
      (.unary (.unary .group) (.assignment "group" (.literal .nil)))
    let e' : Node := .binary (.binary .minus) (.variable "group") (.literal (.real one))
    e.IsParsed ∧ e'.IsParsed ∧ e.HasPlainLiterals ∧ e'.HasPlainLiterals
      ∧ e.format = .ok "(- (group group = nil))" ∧ e'.format = .ok "(- group 1.0)"
      ∧ (∃ text, e.format = .ok text) ∧ (e.format = e'.format → e = e') := by
  intro one e e'
  have hparsed : e.IsParsed := by
    let x : Token := ⟨.identifier, "group", none, 2, 7, 1⟩
    let inner : List Token := [x, ⟨.equal, "=", none, 8, 9, 1⟩, ⟨.nilKw, "nil", none, 10, 13, 1⟩]
    let ts : List Token := ⟨.minus, "-", none, 0, 1, 1⟩ :: ⟨.leftParen, "(", none, 1, 2, 1⟩
      :: (inner ++ [⟨.rightParen, ")", none, 13, 14, 1⟩])
    have hinner : Expression inner (.assignment "group" (.literal .nil)) :=
      .assignment (x := x) rfl rfl ((Derives.literal rfl).loosen (Grammar.bound_le_assign _))
    have hunary : Derives .prefixed ts e := .unary rfl (.tighter (.group rfl rfl hinner))
    let z : Token := ⟨.eof, "", none, 14, 15, 1⟩
    have hscan : scan "-(group = nil)" = (ts ++ [z]).map .token := by decide +kernel
    exact .of_tokens hscan rfl (hunary.loosen (Grammar.bound_le_assign _))
  have hparsed' : e'.IsParsed := by
    let x : Token := ⟨.identifier, "group", none, 0, 5, 1⟩
    let y : Token := ⟨.number, "1", some "1.0", 8, 9, 1⟩
    let ts : List Token := [x] ++ ⟨.minus, "-", none, 6, 7, 1⟩ :: [y]
    have hread : Double.ofText? "1" = some one := by decide +kernel
    have hone : Grammar.literal? y = some (.real one) := by
      unfold Grammar.literal?
      dsimp only [y]
      rw [hread]
      rfl
    have hleft : Derives .sum [x] (.variable "group") :=
      (Derives.name (t := x) rfl).loosen (by decide)
    have hright : Derives .product [y] (.literal (.real one)) :=
      (Derives.literal hone).loosen (by decide)
    have hbinary : Derives .sum ts e' := .binary rfl hleft hright
    let z : Token := ⟨.eof, "", none, 9, 10, 1⟩
    have hscan : scan "group - 1" = (ts ++ [z]).map .token := by decide +kernel
    exact .of_tokens hscan rfl (hbinary.loosen (Grammar.bound_le_assign _))
  have hplain : e.HasPlainLiterals := by
    simp [e, Node.HasPlainLiterals, Node.subtrees, Value.IsPlain]
  have hplain' : e'.HasPlainLiterals := by
    have hone : one.isFinite = true := by decide
    simpa [e', Node.HasPlainLiterals, Node.subtrees, Value.IsPlain] using hone
  have htext : one.literalText = "1.0" := by decide +kernel
  have htext' : e'.format = .ok "(- group 1.0)" := by
    show Except.ok ("(- group " ++ one.literalText ++ ")") = _
    rw [htext]
    rfl
  exact ⟨hparsed, hparsed', hplain, hplain', rfl, htext',
    prefix_text_determines_tree hparsed hparsed' hplain hplain'⟩

/-- A string is written like the name that it spells. -/
example : (Node.literal (.string "a")).format = (Node.variable "a").format := by
  rfl

end Lox

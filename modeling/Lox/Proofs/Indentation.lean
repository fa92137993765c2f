/-
Indenting line by line is printing by depth.

# Lines

A text made of lines that are not empty and hold no boundary is cut into those
lines again (`lines_joined`), so that indenting it puts the two spaces before
each of them and nowhere else (`indented_joined`).

# Depth

`Node.printAt` prints a statement at a depth, with every line indented as it
is written and no text cut again; `Node.linesAt` lists the lines it writes. One
level deeper, the lines are the same with two spaces more (`linesAt_succ`), and
that is what formatting does to the text of a block's statements. So the two
texts agree, by induction over the statement, as long as no name and no string
in it brings a boundary of its own (`Node.Unbroken`).
-/
import Lox.Node.Outline
import Lox.Node.Text
import Lox.Proofs.Agreement
import Lox.Proofs.CommandLine
import Lox.Proofs.LiteralText
import Lox.Proofs.WellTyped

namespace Lox

-- ================================================================= lines

namespace Text

/-- A text without a line boundary. -/
def Unbroken (s : String) : Prop :=
  ∀ c ∈ s.toList, isLineBreak c = false

instance (s : String) : Decidable (Unbroken s) :=
  List.decidableBAll (fun c => isLineBreak c = false) s.toList

/-- A text in two parts has a line break if one of them has. -/
@[simp]
theorem unbroken_append {s t : String} : Unbroken (s ++ t) ↔ Unbroken s ∧ Unbroken t := by
  simp only [Unbroken, String.toList_append, List.forall_mem_append]

/-- A text that is one line. -/
structure IsLine (s : String) : Prop where
  ne_empty : s ≠ ""
  unbroken : Unbroken s

/-- An indented line is still one line. -/
theorem IsLine.indented {s : String} (h : IsLine s) : IsLine ("  " ++ s) :=
  ⟨by simp, unbroken_append.2 ⟨by decide, h.unbroken⟩⟩

/-- Characters that are no boundary belong to the line they stand before. -/
theorem lines_cons {c : Char} {cs : List Char} (hc : isLineBreak c = false) :
    lines (c :: cs)
      = match lines cs with
        | [] => [[c]]
        | line :: more => (c :: line) :: more := by
  have hr : c ≠ '\r' := by
    rintro rfl
    cases hc
  rw [lines, hc]
  · rfl
  · exact fun _ h _ => hr h

/-- A text without line breaks is one line. -/
theorem lines_line {cs : List Char} (hne : cs ≠ []) (h : ∀ c ∈ cs, isLineBreak c = false) :
    lines cs = [cs] := by
  induction cs with
  | nil => exact absurd rfl hne
  | cons c cs ih =>
      rw [List.forall_mem_cons] at h
      rw [lines_cons h.1]
      cases cs with
      | nil => rfl
      | cons d cs => rw [ih (List.cons_ne_nil d cs) h.2]

/-- A line feed ends the line before it. -/
theorem lines_append {cs : List Char} (h : ∀ c ∈ cs, isLineBreak c = false) (rest : List Char) :
    lines (cs ++ '\n' :: rest) = cs :: lines rest := by
  induction cs with
  | nil =>
      rw [List.nil_append, lines]
      · rfl
      · intro _ h
        cases h
  | cons c cs ih =>
      rw [List.forall_mem_cons] at h
      rw [List.cons_append, lines_cons h.1, ih h.2]

/-- Lines put together are cut into the same lines again. -/
theorem lines_joined {texts : List String} (h : ∀ s ∈ texts, IsLine s) :
    lines (Node.joined "\n" texts).toList = texts.map String.toList := by
  unfold Node.joined
  rw [String.toList_intercalate]
  induction texts with
  | nil => rfl
  | cons s texts ih =>
      rw [List.forall_mem_cons] at h
      have hs : s.toList ≠ [] := fun hnil => h.1.ne_empty (String.toList_eq_nil_iff.1 hnil)
      cases texts with
      | nil =>
          rw [List.map_singleton, List.intercalate_singleton]
          exact lines_line hs h.1.unbroken
      | cons t texts =>
          rw [List.map_cons, List.map_cons, List.intercalate_cons_cons, List.append_assoc,
            ← List.map_cons]
          exact (lines_append h.1.unbroken _).trans (congrArg (s.toList :: ·) (ih h.2))

/-- Two spaces before each of the lines. -/
theorem indented_joined {texts : List String} (h : ∀ s ∈ texts, IsLine s) :
    Node.indented (Node.joined "\n" texts) = Node.joined "\n" (texts.map ("  " ++ ·)) := by
  unfold Node.indented
  rw [lines_joined h, List.map_map]
  congr 1
  refine List.map_congr_left fun s _ => String.toList_inj.1 ?_
  simp

end Text

-- ================================================================ by depth

namespace Node

open Outline (indent)

/-- The text of an expression, or of a statement that is no block, on a line of
its own. -/
def oneLine : Node → String
  | .unary op operand => "(" ++ op.symbol ++ " " ++ oneLine operand ++ ")"
  | .binary op left right =>
      "(" ++ op.symbol ++ " " ++ oneLine left ++ " " ++ oneLine right ++ ")"
  | .assignment name value => name ++ " = " ++ oneLine value
  | .literal value =>
      match value.literalText with
      | .ok text => text
      | .error _ => ""
  | .variable name => name
  | .exprStmt expr => oneLine expr ++ ";"
  | .printStmt expr => "print " ++ oneLine expr ++ ";"
  | .declare name => "var " ++ name ++ ";"
  | .define name init => "var " ++ name ++ " = " ++ oneLine init ++ ";"
  | .assignStmt name value => name ++ " = " ++ oneLine value ++ ";"
  | .block _ | .unknown => ""

mutual

/-- The text of a statement at a depth: each line is indented by the depth as it
is written, and the statements of a block stand one level deeper. -/
def printAt (depth : Nat) : Node → String
  | .block statements =>
      if statements.isEmpty then indent depth ++ "{}"
      else
        indent depth ++ r"{" ++ "\n" ++ printAll (depth + 1) statements ++ indent depth ++ r"}"
  | s => indent depth ++ s.oneLine

/-- The texts of some statements at a depth, each with a line feed behind it. -/
def printAll (depth : Nat) : List Node → String
  | [] => ""
  | s :: rest => printAt depth s ++ "\n" ++ printAll depth rest

end

mutual

/-- The lines of a statement at a depth. -/
def linesAt (depth : Nat) : Node → List String
  | .block statements =>
      if statements.isEmpty then [indent depth ++ "{}"]
      else (indent depth ++ r"{") :: (linesAll (depth + 1) statements ++ [indent depth ++ r"}"])
  | s => [indent depth ++ s.oneLine]

/-- The lines of some statements at a depth. -/
def linesAll (depth : Nat) : List Node → List String
  | [] => []
  | s :: rest => linesAt depth s ++ linesAll depth rest

end

/-- The lines of statements are those of each one. -/
theorem linesAll_eq_flatMap (depth : Nat) (ss : List Node) :
    linesAll depth ss = ss.flatMap (linesAt depth) := by
  induction ss with
  | nil => rw [linesAll, List.flatMap_nil]
  | cons s ss ih => rw [linesAll, List.flatMap_cons, ih]

/-- Every statement has a line. -/
theorem linesAt_ne_nil (depth : Nat) (s : Node) : s.linesAt depth ≠ [] := by
  unfold linesAt
  split
  · split <;> exact List.cons_ne_nil _ _
  · exact List.cons_ne_nil _ _

theorem linesAll_ne_nil (depth : Nat) {ss : List Node} (h : ss ≠ []) : linesAll depth ss ≠ [] := by
  cases ss with
  | nil => exact absurd rfl h
  | cons s ss =>
      rw [linesAll]
      exact List.append_ne_nil_of_left_ne_nil (linesAt_ne_nil _ s) _

@[simp]
theorem indent_zero : indent 0 = "" := rfl

theorem indent_succ (depth : Nat) : indent (depth + 1) = "  " ++ indent depth := by
  apply String.toList_inj.1
  simp [indent, Nat.mul_add, List.replicate_succ]

mutual

/-- One level deeper, every line has two spaces more in front. -/
theorem linesAt_succ (depth : Nat) (s : Node) :
    s.linesAt (depth + 1) = (s.linesAt depth).map ("  " ++ ·) := by
  cases s with
  | block ss =>
      rw [linesAt, linesAt, linesAll_succ (depth + 1) ss]
      split <;> simp [indent_succ, String.append_assoc]
  | _ => simp [linesAt, indent_succ, String.append_assoc]
termination_by sizeOf s

theorem linesAll_succ (depth : Nat) (ss : List Node) :
    linesAll (depth + 1) ss = (linesAll depth ss).map ("  " ++ ·) := by
  cases ss with
  | nil => rfl
  | cons s ss =>
      rw [linesAll, linesAll, linesAt_succ depth s, linesAll_succ depth ss, List.map_append]
termination_by sizeOf ss

end

-- ------------------------------------------------------- texts of lines

/-- Texts are joined from the first on. -/
theorem joined_cons {s : String} {texts : List String} (h : texts ≠ []) :
    joined "\n" (s :: texts) = s ++ "\n" ++ joined "\n" texts :=
  String.intercalate_cons_of_ne_nil h

/-- Two rows of texts are joined with one line feed between them. -/
theorem joined_append {texts more : List String} (h : texts ≠ []) (h' : more ≠ []) :
    joined "\n" (texts ++ more) = joined "\n" texts ++ "\n" ++ joined "\n" more :=
  String.intercalate_append_of_ne_nil h h'

/-- Texts of lines put together are the text of all the lines. -/
theorem joined_flatMap {α : Type} {f : α → List String} (h : ∀ a, f a ≠ []) (xs : List α) :
    joined "\n" (xs.map fun a => joined "\n" (f a)) = joined "\n" (xs.flatMap f) := by
  induction xs with
  | nil => rfl
  | cons a xs ih =>
      cases xs with
      | nil => simp [joined]
      | cons b xs =>
          have hmore : (b :: xs).flatMap f ≠ [] := List.append_ne_nil_of_left_ne_nil (h b) _
          have hcons : (a :: b :: xs).flatMap f = f a ++ (b :: xs).flatMap f := rfl
          rw [List.map_cons, joined_cons (by simp), ih, hcons, joined_append (h a) hmore]

/-- The text of a block that is not empty, by its lines. -/
theorem joined_enclosed {first last : String} {texts : List String} (h : texts ≠ []) :
    joined "\n" (first :: (texts ++ [last]))
      = first ++ "\n" ++ joined "\n" texts ++ "\n" ++ last := by
  rw [joined_cons (by simp), joined_append h (by simp)]
  simp [joined, String.append_assoc]

mutual

/-- What is printed at a depth is its lines. -/
theorem printAt_eq (depth : Nat) (s : Node) :
    s.printAt depth = joined "\n" (s.linesAt depth) := by
  cases s with
  | block ss =>
      rw [printAt, linesAt]
      split
      · simp [joined]
      · next hne =>
          have hss : ss ≠ [] := by simpa using hne
          rw [printAll_eq (depth + 1) ss hss, joined_enclosed (linesAll_ne_nil _ hss)]
          simp [String.append_assoc]
  | _ => simp [printAt, linesAt, joined]
termination_by sizeOf s

/-- The same for statements in a row, each on lines of its own. -/
theorem printAll_eq (depth : Nat) (ss : List Node) (h : ss ≠ []) :
    printAll depth ss = joined "\n" (linesAll depth ss) ++ "\n" := by
  cases ss with
  | nil => exact absurd rfl h
  | cons s ss =>
      rw [printAll, linesAll, printAt_eq depth s]
      by_cases hmore : ss = []
      · subst hmore
        simp [printAll, linesAll]
      · rw [printAll_eq depth ss hmore,
          joined_append (linesAt_ne_nil _ s) (linesAll_ne_nil _ hmore)]
        simp [String.append_assoc]
termination_by sizeOf ss

end

end Node

-- ========================================================= unbroken texts

theorem Double.unbroken_literalText (x : Double) : Text.Unbroken x.literalText := by
  cases hx : x.isFinite with
  | true =>
      intro c hc
      exact (isPlain_of_mem_literalText hx hc).elim (P := fun c => Text.isLineBreak c = false)
        (by decide)
  | false =>
      rcases isNaN_or_isInfinite hx with hnan | hinfinite
      · rw [literalText_of_isNaN hnan]
        decide
      · rw [literalText_of_isInfinite hinfinite]
        cases x.isNegative <;> decide

theorem UnaryOp.unbroken_symbol (op : UnaryOp) : Text.Unbroken op.symbol := by
  cases op <;> decide

theorem BinaryOp.unbroken_symbol (op : BinaryOp) : Text.Unbroken op.symbol := by
  cases op <;> decide

/-- A literal is broken only where a string in it is. -/
theorem Value.unbroken_literalText {v : Value} {text : String} (h : v.literalText = .ok text)
    (hstring : ∀ s, v = .string s → Text.Unbroken s) : Text.Unbroken text := by
  cases v with
  | absent => cases h
  | nil => cases h; decide
  | bool b => cases h; cases b <;> decide
  | string s => cases h; exact hstring _ rfl
  | real x => cases h; exact x.unbroken_literalText

namespace Node

/-- No name and no string in the tree holds a line boundary. -/
structure Unbroken (n : Node) : Prop where
  names : ∀ x ∈ n.identifiers, Text.Unbroken x
  strings : ∀ s, Node.literal (.string s) ∈ n.subtrees → Text.Unbroken s

/-- The parts of a tree without line breaks have none. -/
theorem Unbroken.of_subset {n part : Node} (h : n.Unbroken) (hpart : part.subtrees ⊆ n.subtrees) :
    part.Unbroken :=
  ⟨fun x hx => h.names x (List.filterMap_subset _ hpart hx), fun s hs => h.strings s (hpart hs)⟩

theorem self_mem_subtrees (n : Node) : n ∈ n.subtrees := by
  cases n <;> simp [subtrees]

/-- The name that a tree has at its root. -/
theorem Unbroken.ownName {n : Node} (h : n.Unbroken) {x : String} (hx : n.ownName? = some x) :
    Text.Unbroken x :=
  h.names x (List.mem_filterMap.2 ⟨n, self_mem_subtrees n, hx⟩)

/-- The parts of a statement are parts of its block. -/
theorem subtrees_subset_block {s : Node} {ss : List Node} (h : s ∈ ss) :
    s.subtrees ⊆ (Node.block ss).subtrees := by
  rw [subtrees]
  apply List.subset_cons_of_subset
  induction ss with
  | nil => cases h
  | cons s' ss ih =>
      rw [subtreesAll]
      rcases List.mem_cons.1 h with rfl | h
      · exact List.subset_append_left _ _
      · exact List.subset_append_of_subset_right _ (ih h)

-- ============================================================= formatting

/-- The text of an expression is on one line. -/
theorem IsExpression.format_eq {e : Node} (h : e.IsExpression) (hunbroken : e.Unbroken) :
    e.format = .ok e.oneLine ∧ Text.Unbroken e.oneLine := by
  induction h with
  | @literal v hv =>
      obtain ⟨text, htext⟩ := Value.exists_literalText hv
      rw [Node.format, oneLine, htext]
      refine ⟨rfl, Value.unbroken_literalText htext ?_⟩
      rintro s rfl
      exact hunbroken.strings s (by simp [subtrees])
  | name x =>
      rw [Node.format, oneLine]
      exact ⟨rfl, hunbroken.ownName rfl⟩
  | unary op _ ih =>
      obtain ⟨hformat, htext⟩ := ih (hunbroken.of_subset (by simp [subtrees]))
      rw [Node.format, oneLine, hformat]
      simp only [Text.unbroken_append]
      exact ⟨rfl, ⟨⟨⟨by decide, op.unbroken_symbol⟩, by decide⟩, htext⟩, by decide⟩
  | binary op _ _ ihl ihr =>
      obtain ⟨hleft, hltext⟩ := ihl (hunbroken.of_subset (by simp [subtrees]))
      obtain ⟨hright, hrtext⟩ := ihr (hunbroken.of_subset (by simp [subtrees]))
      rw [Node.format, oneLine, hleft, hright]
      simp only [Text.unbroken_append]
      exact ⟨rfl, ⟨⟨⟨⟨⟨by decide, op.unbroken_symbol⟩, by decide⟩, hltext⟩, by decide⟩, hrtext⟩,
        by decide⟩
  | assignment x _ ih =>
      obtain ⟨hformat, htext⟩ := ih (hunbroken.of_subset (by simp [subtrees]))
      rw [Node.format, oneLine, hformat]
      simp only [Text.unbroken_append]
      exact ⟨rfl, ⟨hunbroken.ownName rfl, by decide⟩, htext⟩

/-- A statement with one line, and its semicolon at the end. -/
theorem format_line {s : Node} {text : String} (hformat : s.format = .ok (text ++ ";"))
    (hlines : s.linesAt 0 = [text ++ ";"]) (htext : Text.Unbroken text) :
    s.format = .ok (joined "\n" (s.linesAt 0)) ∧ ∀ line ∈ s.linesAt 0, Text.IsLine line := by
  rw [hformat, hlines, List.forall_mem_singleton]
  exact ⟨by simp [joined], by simp, Text.unbroken_append.2 ⟨htext, by decide⟩⟩

/-- If statements are formatted by depth one by one, they are as a row. -/
theorem formatAll_eq {ss : List Node}
    (h : ∀ s ∈ ss, s.format = .ok (joined "\n" (s.linesAt 0))) :
    formatAll ss = .ok (ss.map fun s => joined "\n" (s.linesAt 0)) := by
  induction ss with
  | nil => rw [formatAll]; rfl
  | cons s ss ih =>
      rw [List.forall_mem_cons] at h
      rw [formatAll, h.1, ih h.2]
      rfl

/-- The text of a block whose statements are made of lines: these lines one level
deeper between the braces. -/
theorem blockText_eq {ss : List Node} (hne : ss ≠ [])
    (h : ∀ line ∈ linesAll 0 ss, Text.IsLine line) :
    blockText (ss.map fun s => joined "\n" (s.linesAt 0))
      = joined "\n" (r"{" :: (linesAll 1 ss ++ [r"}"])) := by
  have htexts : ss.map (fun s => joined "\n" (s.linesAt 0)) ≠ [] := by simpa using hne
  rw [blockText, joined_flatMap (linesAt_ne_nil 0), ← linesAll_eq_flatMap, Text.indented_joined h,
    ← linesAll_succ, joined_enclosed (linesAll_ne_nil 1 hne), ]
  exact htexts

/-- Formatting a statement writes its lines. -/
theorem IsStatement.format_eq {s : Node} (h : s.IsStatement) (hunbroken : s.Unbroken) :
    s.format = .ok (joined "\n" (s.linesAt 0)) ∧ ∀ line ∈ s.linesAt 0, Text.IsLine line := by
  induction h with
  | exprStmt he =>
      obtain ⟨hformat, htext⟩ := he.format_eq (hunbroken.of_subset (by simp [subtrees]))
      exact format_line (by rw [Node.format, hformat]; rfl) (by simp [linesAt, oneLine]) htext
  | printStmt he =>
      obtain ⟨hformat, htext⟩ := he.format_eq (hunbroken.of_subset (by simp [subtrees]))
      exact format_line (by rw [Node.format, hformat]; rfl) (by simp [linesAt, oneLine])
        (Text.unbroken_append.2 ⟨by decide, htext⟩)
  | declare x =>
      exact format_line (by rw [Node.format]) (by simp [linesAt, oneLine])
        (Text.unbroken_append.2 ⟨by decide, hunbroken.ownName rfl⟩)
  | define x he =>
      obtain ⟨hformat, htext⟩ := he.format_eq (hunbroken.of_subset (by simp [subtrees]))
      refine format_line (by rw [Node.format, hformat]; rfl) (by simp [linesAt, oneLine]) ?_
      simp only [Text.unbroken_append]
      exact ⟨⟨⟨by decide, hunbroken.ownName rfl⟩, by decide⟩, htext⟩
  | assignStmt x he =>
      obtain ⟨hformat, htext⟩ := he.format_eq (hunbroken.of_subset (by simp [subtrees]))
      refine format_line (by rw [Node.format, hformat]; rfl) (by simp [linesAt, oneLine]) ?_
      simp only [Text.unbroken_append]
      exact ⟨⟨hunbroken.ownName rfl, by decide⟩, htext⟩
  | @block ss _ ih =>
      -- the statements are lines already, so indenting their text indents each line
      have hss : ∀ s ∈ ss, _ := fun s hs =>
        ih s hs (hunbroken.of_subset (subtrees_subset_block hs))
      have hlines : ∀ line ∈ linesAll 0 ss, Text.IsLine line := by
        intro line hline
        rw [linesAll_eq_flatMap, List.mem_flatMap] at hline
        obtain ⟨s, hs, hline⟩ := hline
        exact (hss s hs).2 line hline
      rw [Node.format, formatAll_eq fun s hs => (hss s hs).1, linesAt]
      by_cases hne : ss = []
      · subst hne
        refine ⟨rfl, ?_⟩
        rw [List.isEmpty_nil, if_pos rfl, List.forall_mem_singleton]
        exact ⟨by decide, by decide⟩
      · rw [List.isEmpty_eq_false_iff.2 hne, if_neg Bool.false_ne_true, indent_zero,
          String.empty_append, String.empty_append, ← blockText_eq hne hlines, List.forall_mem_cons,
          List.forall_mem_append, List.forall_mem_singleton, linesAll_succ, List.forall_mem_map]
        exact ⟨rfl, ⟨by decide, by decide⟩, fun line hline => (hlines line hline).indented,
          by decide, by decide⟩

end Node

-- ============================================================= the result

/-- Indenting line by line is printing by depth. For a statement of the right
form, with no line boundary in its names and strings, formatting gives the text
that is printed at depth zero, and the lines of that text are those of the
statement and its parts, each with the indentation of its own depth. -/
theorem format_prints_by_depth {s : Node} (h : s.IsStatement) (hunbroken : s.Unbroken) :
    s.format = .ok (s.printAt 0)
      ∧ Text.lines (s.printAt 0).toList = (s.linesAt 0).map String.toList := by
  obtain ⟨hformat, hlines⟩ := h.format_eq hunbroken
  rw [hformat, s.printAt_eq]
  exact ⟨rfl, Text.lines_joined hlines⟩

/-- A block in a block, beside an empty one and a statement of one line. -/
theorem format_prints_by_depth_nested :
    let s : Node := .block [.printStmt (.literal (.string "x")), .block [],
      .block [.printStmt (.literal .nil)]]
    s.IsStatement ∧ s.Unbroken
      ∧ s.format = .ok ("\n".intercalate
          [r"{", "  print x;", "  {}", r"  {", "    print nil;", r"  }", r"}"])
      ∧ s.format = .ok (s.printAt 0)
      ∧ Text.lines (s.printAt 0).toList = (s.linesAt 0).map String.toList := by
  intro s
  have hprint {v : Value} (hv : v ≠ .absent) : (Node.printStmt (.literal v)).IsStatement :=
    .printStmt (.literal hv)
  have hstatement : s.IsStatement := by
    refine .block ?_
    rw [List.forall_mem_cons, List.forall_mem_cons, List.forall_mem_singleton]
    refine ⟨hprint (by decide), .block fun _ hnil => absurd hnil List.not_mem_nil, .block ?_⟩
    rw [List.forall_mem_singleton]
    exact hprint (by decide)
  have hunbroken : s.Unbroken := by
    refine ⟨by decide, fun t ht => ?_⟩
    have ht : t = "x" := by simpa [s, Node.subtrees, Node.subtreesAll] using ht
    rw [ht]
    decide
  exact ⟨hstatement, hunbroken, rfl, format_prints_by_depth hstatement hunbroken⟩

/-- A string with a line feed in it is cut there, and its second line indented. -/
example : (Node.block [.printStmt (.literal (.string "a\nb"))]).format
    = .ok ("\n".intercalate [r"{", "  print a", "  b;", r"}"]) := by
  rfl

end Lox

/-
Two ways to cut a text into lines.

Program text that is laid out again (a block inside a block) is cut at
every line boundary that Unicode knows, so that each line can be indented
on its own; a final boundary opens no further line. The editor's document
is cut at line feeds only, and a final line feed does open an empty line.
-/

namespace Lox.Text

-- ======================================================= all boundaries

/-- The characters that end a line: line feed, vertical tab, form feed,
carriage return, the three upper separators, next line, and the line and
paragraph separators. -/
def isLineBreak (c : Char) : Bool :=
  let n := c.toNat
  (0x0A ≤ n && n ≤ 0x0D) || (0x1C ≤ n && n ≤ 0x1E) || n == 0x85 || n == 0x2028 || n == 0x2029

/-- The lines of a text, without their boundaries. A carriage return and
the line feed after it are one boundary, and nothing follows a boundary
that ends the text. -/
def lines : List Char → List (List Char)
  | [] => []
  | '\r' :: '\n' :: rest => [] :: lines rest
  | c :: rest =>
      if isLineBreak c then [] :: lines rest
      else match lines rest with
        | [] => [[c]]
        | line :: more => (c :: line) :: more

-- ======================================================= line feeds only

/-- The rows of a document: cut at each line feed, so there is always one
row more than there are line feeds. -/
def rows : List Char → List (List Char)
  | [] => [[]]
  | c :: rest =>
      if c = '\n' then [] :: rows rest
      else match rows rest with
        | [] => [[c]]
        | row :: more => (c :: row) :: more

/-- Line ends brought to a single line feed: a carriage return, with the
line feed after it if there is one, becomes one line feed. -/
def unifyLineEnds : List Char → List Char
  | [] => []
  | '\r' :: '\n' :: rest => '\n' :: unifyLineEnds rest
  | c :: rest => (if c = '\r' then '\n' else c) :: unifyLineEnds rest

end Lox.Text

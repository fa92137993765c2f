/-
White space, and the small text operations that depend on it.

A character is blank if it is one of the Unicode white-space characters or
one of the four information separators. The scanner skips blanks, the
prompt trims them, and the log level read from the environment loses them
at both ends. All of them share the one predicate `isBlank`. Only numerals
are stricter: white space may stand around them, separators may not.
-/

namespace Lox.Text

-- ========================================================= the predicates

/-- The Unicode white-space characters: the controls from tab to carriage
return, the space, next line, the no-break space, and the typographic
spaces and line separators above them. -/
def isSpace (c : Char) : Bool :=
  let n := c.toNat
  (0x09 ≤ n && n ≤ 0x0D) || n == 0x20 || n == 0x85 || n == 0xA0 || n == 0x1680 ||
    (0x2000 ≤ n && n ≤ 0x200A) || n == 0x2028 || n == 0x2029 || n == 0x202F || n == 0x205F ||
    n == 0x3000

/-- The four information separators: of files, groups, records and units. -/
def isSeparator (c : Char) : Bool :=
  0x1C ≤ c.toNat && c.toNat ≤ 0x1F

/-- The characters that count as blank in program text and in what is
typed. -/
def isBlank (c : Char) : Bool :=
  isSpace c || isSeparator c

-- ============================================================== trimming

/-- The characters without the blanks at the front. -/
def stripLeft (cs : List Char) : List Char :=
  cs.dropWhile isBlank

/-- The characters without the blanks at the back. -/
def stripRight (cs : List Char) : List Char :=
  (cs.reverse.dropWhile isBlank).reverse

/-- The text without the blanks at either end. -/
def trim (s : String) : String :=
  String.ofList (stripRight (stripLeft s.toList))

/-- The first word of a text and what follows the blanks after it. Blanks
before the first word are skipped; both parts are empty if there is no
word. -/
def firstWord (s : String) : String × String :=
  let cs := stripLeft s.toList
  (String.ofList (cs.takeWhile (!isBlank ·)), String.ofList (stripLeft (cs.dropWhile (!isBlank ·))))

end Lox.Text

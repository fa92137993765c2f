/-
Quoted text, as messages show names, paths and lexemes.

Single quotes enclose the text unless it holds a single quote and no double
quote. Inside, a backslash and the enclosing quote are escaped by a
backslash, line feed, carriage return and tab have their letters, and any
other unprintable character is written by its code point in the shortest of
the two-, four- and eight-digit hexadecimal forms.
-/
import Lox.Text.Printable

namespace Lox.Text

/-- The lower-case hexadecimal digits of a number, padded with zeros to a
given width. -/
def hexDigits (width n : Nat) : List Char :=
  let digits := Nat.toDigits 16 n
  List.replicate (width - digits.length) '0' ++ digits

/-- The quote that encloses a text: a single quote, or a double quote for a
text with single quotes only. -/
def enclosingQuote (cs : List Char) : Char :=
  if cs.contains '\x27' && !cs.contains '"' then '"' else '\x27'

/-- How one character is written inside the given quote. -/
def escapeChar (quote c : Char) : List Char :=
  if c = '\\' || c = quote then ['\\', c]
  else if c = '\n' then ['\\', 'n']
  else if c = '\r' then ['\\', 'r']
  else if c = '\t' then ['\\', 't']
  else if isPrintable c then [c]
  else if c.toNat ≤ 0xFF then '\\' :: 'x' :: hexDigits 2 c.toNat
  else if c.toNat ≤ 0xFFFF then '\\' :: 'u' :: hexDigits 4 c.toNat
  else '\\' :: 'U' :: hexDigits 8 c.toNat

/-- A text in quotes. -/
def quoted (s : String) : String :=
  let cs := s.toList
  let quote := enclosingQuote cs
  String.ofList (quote :: (cs.flatMap (escapeChar quote) ++ [quote]))

end Lox.Text

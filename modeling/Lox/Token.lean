/-
Tokens: their kinds, their place in the source, and lexical errors.

A token keeps the text it was read from, and for strings and numbers the
literal that the text denotes. Offsets count characters from the start of
the source, lines from one; a token put together by hand may claim any line.
-/
import Lox.Text.Quoted

namespace Lox

-- ================================================================= kinds

/-- The kinds of token: the two literals, punctuation and operators, the end
of the source, names, and one kind for each reserved word. -/
inductive Kind where
  | string | number
  | leftParen | rightParen | leftBrace | rightBrace | comma | dot | minus | plus | semicolon
  | star | slash | equal | equalEqual | bang | bangEqual | less | lessEqual | greater
  | greaterEqual
  | eof | identifier
  | andKw | classKw | elseKw | falseKw | forKw | funKw | ifKw | nilKw | orKw | printKw
  | returnKw | superKw | thisKw | trueKw | varKw | whileKw
deriving DecidableEq, Repr, Inhabited

namespace Kind

/-- The name under which a kind is printed. -/
def name : Kind → String
  | .string => "STRING"
  | .number => "NUMBER"
  | .leftParen => "LEFT_PAREN"
  | .rightParen => "RIGHT_PAREN"
  | .leftBrace => "LEFT_BRACE"
  | .rightBrace => "RIGHT_BRACE"
  | .comma => "COMMA"
  | .dot => "DOT"
  | .minus => "MINUS"
  | .plus => "PLUS"
  | .semicolon => "SEMICOLON"
  | .star => "STAR"
  | .slash => "SLASH"
  | .equal => "EQUAL"
  | .equalEqual => "EQUAL_EQUAL"
  | .bang => "BANG"
  | .bangEqual => "BANG_EQUAL"
  | .less => "LESS"
  | .lessEqual => "LESS_EQUAL"
  | .greater => "GREATER"
  | .greaterEqual => "GREATER_EQUAL"
  | .eof => "EOF"
  | .identifier => "IDENTIFIER"
  | .andKw => "AND"
  | .classKw => "CLASS"
  | .elseKw => "ELSE"
  | .falseKw => "FALSE"
  | .forKw => "FOR"
  | .funKw => "FUN"
  | .ifKw => "IF"
  | .nilKw => "NIL"
  | .orKw => "OR"
  | .printKw => "PRINT"
  | .returnKw => "RETURN"
  | .superKw => "SUPER"
  | .thisKw => "THIS"
  | .trueKw => "TRUE"
  | .varKw => "VAR"
  | .whileKw => "WHILE"

/-- Every kind, literals first and reserved words last. -/
def all : List Kind :=
  [.string, .number, .leftParen, .rightParen, .leftBrace, .rightBrace, .comma, .dot, .minus,
    .plus, .semicolon, .star, .slash, .equal, .equalEqual, .bang, .bangEqual, .less, .lessEqual,
    .greater, .greaterEqual, .eof, .identifier, .andKw, .classKw, .elseKw, .falseKw, .forKw,
    .funKw, .ifKw, .nilKw, .orKw, .printKw, .returnKw, .superKw, .thisKw, .trueKw, .varKw, .whileKw]

theorem mem_all (k : Kind) : k ∈ all := by
  cases k <;> decide

/-- The kind of a printed name. -/
def ofName? (s : String) : Option Kind :=
  all.find? (·.name == s)

/-- The reserved word that a kind stands for, if it is the kind of one. -/
def word? : Kind → Option String
  | .andKw => some "and"
  | .classKw => some "class"
  | .elseKw => some "else"
  | .falseKw => some "false"
  | .forKw => some "for"
  | .funKw => some "fun"
  | .ifKw => some "if"
  | .nilKw => some "nil"
  | .orKw => some "or"
  | .printKw => some "print"
  | .returnKw => some "return"
  | .superKw => some "super"
  | .thisKw => some "this"
  | .trueKw => some "true"
  | .varKw => some "var"
  | .whileKw => some "while"
  | _ => none

/-- The kind of a word: its own if it is reserved, a name otherwise. -/
def ofWord (s : String) : Kind :=
  (all.find? (·.word? == some s)).getD .identifier

end Kind

-- ================================================================ tokens

/-- A token with the characters `start` to `stop` of the source (the end of
the source has an empty lexeme and a span of one) and the line it starts
on. -/
structure Token where
  kind : Kind
  lexeme : String
  literal : Option String := none
  start : Nat := 0
  stop : Nat := 0
  line : Int := 1
deriving DecidableEq, Repr, Inhabited

namespace Token

/-- The line that lists a token: kind, lexeme, and literal or `null`. -/
def render (t : Token) : String :=
  t.kind.name ++ " " ++ t.lexeme ++ " " ++ t.literal.getD "null"

/-- A description of a token for debugging: kind, quoted lexeme, line. -/
def describe (t : Token) : String :=
  "Tok(" ++ t.kind.name ++ ", " ++ Text.quoted t.lexeme ++ ", line " ++ toString t.line ++ ")"

end Token

-- ======================================================== lexical errors

/-- What the scanner can object to. -/
inductive LexFault where
  /-- A character that starts no token; none at the end of the source. -/
  | unexpectedCharacter (c : Option Char)
  /-- A string whose closing quote is missing. -/
  | unterminatedString
deriving DecidableEq, Repr

def LexFault.message : LexFault → String
  | .unexpectedCharacter c => "Unexpected character: " ++ String.ofList c.toList
  | .unterminatedString => "Unterminated string."

/-- A lexical error and where it was found; scanning goes on after it. -/
structure LexError where
  fault : LexFault
  offset : Nat
  line : Nat
deriving DecidableEq, Repr

/-- A message with the line it is about. -/
def atLine (line : Int) (message : String) : String :=
  "[line " ++ toString line ++ "] Error: " ++ message

def LexError.message (e : LexError) : String :=
  e.fault.message

/-- The line that reports a lexical error. -/
def LexError.report (e : LexError) : String :=
  atLine e.line e.message

end Lox

/-
Why parsing can fail.

Most failures are objections of the grammar to a token, or to the end of the
tokens. Two more arise only over tokens that did not come from the scanner:
a sequence that ends without an end token can run out in the middle of a
statement, and a number token may carry a text that is no number.
-/
import Lox.Token

namespace Lox

/-- What can be wrong with the tokens of an expression or statement. -/
inductive SyntaxFault where
  | endInExpression
  | endInStatement
  | operandExpected (lexeme : String)
  | operatorExpected (lexeme : String)
  | unmatchedParen
  | unclosedParen
  | missingOperand
  | operandsLeft
  | badTarget
  | unknownOperator
  | semicolonAfterValue
  | variableName
  | semicolonAfterDeclaration
  | semicolonAfterExpression
  | braceAfterBlock
deriving DecidableEq, Repr

def SyntaxFault.message : SyntaxFault → String
  | .endInExpression => "Unexpected end of input when parsing an expression"
  | .endInStatement => "Unexpected end of input when parsing a statement"
  | .operandExpected lexeme =>
      "Unexpected token '" ++ lexeme ++ "' where an operand was expected"
  | .operatorExpected lexeme =>
      "Unexpected token '" ++ lexeme ++ "' where an operator was expected"
  | .unmatchedParen => "Unmatched right parenthesis"
  | .unclosedParen => "Unclosed left parenthesis"
  | .missingOperand => "Malformed expression: missing operand"
  | .operandsLeft => "Malformed expression: operands left over"
  | .badTarget => "Invalid assignment target: left side of assignment is not a variable"
  | .unknownOperator => "Unknown operator None"
  | .semicolonAfterValue => "Expected ';' after value"
  | .variableName => "Expected variable name after 'var'"
  | .semicolonAfterDeclaration => "Expected ';' after variable declaration"
  | .semicolonAfterExpression => "Expected ';' after expression"
  | .braceAfterBlock => r"Expected '}' after block"

/-- A failed parse. -/
inductive ParseFailure where
  /-- The grammar objects, at a token if there is one to point at. -/
  | rejected (fault : SyntaxFault) (token : Option Token)
  /-- The tokens ran out where one was needed. -/
  | exhausted
  /-- The text of a number token is not a number. -/
  | notNumeral (lexeme : String)
deriving DecidableEq, Repr

namespace ParseFailure

/-- The message of a failure, with the line of the token it points at. -/
def message : ParseFailure → String
  | .rejected fault (some token) => atLine token.line fault.message
  | .rejected fault none => "Error: " ++ fault.message
  | .exhausted => ""
  | .notNumeral lexeme => "could not convert string to float: " ++ Text.quoted lexeme

end ParseFailure

end Lox

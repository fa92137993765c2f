/-
The grammar of the language, as a relation between tokens and trees.

# Expressions

Expressions are stratified. Each level has operators of its own and takes
its operands from the next tighter level:

    assign   -> IDENT '=' assign | or
    or       -> or 'or' and | and
    and      -> and 'and' equality | equality
    equality -> equality ('==' | '!=') relation | relation
    relation -> relation ('<' | '<=' | '>' | '>=') sum | sum
    sum      -> sum ('+' | '-') product | product
    product  -> product ('*' | '/') prefixed | prefixed
    prefixed -> ('+' | '-' | '!') prefixed | primary
    primary  -> literal | IDENT | '(' assign ')'

The six binary levels have one rule, `Derives.binary`: its left operand is
of the same level, so operators of one level group to the left. The tables
here say on their own which token belongs to which level and what it means;
no precedence number is read off the parser.

# Statements

A statement ends with its semicolon or its closing brace, and a program is
any number of statements before the end token.
-/
import Lox.Node
import Lox.Double.Numeral

namespace Lox.Grammar

-- ================================================================ levels

/-- The levels of the expression grammar, loosest first. -/
inductive Level where
  | assign | or | and | equality | relation | sum | product | prefixed | primary
deriving DecidableEq, Repr

/-- The next tighter level; the tightest one stays. -/
def Level.tighter : Level → Level
  | .assign => .or
  | .or => .and
  | .and => .equality
  | .equality => .relation
  | .relation => .sum
  | .sum => .product
  | .product => .prefixed
  | .prefixed => .primary
  | .primary => .primary

-- ============================================================= terminals

/-- The tokens that stand between two operands: their level, and the
operator they mean. -/
def binary? : Kind → Option (Level × BinaryOp)
  | .orKw => some (.or, .or)
  | .andKw => some (.and, .and)
  | .equalEqual => some (.equality, .equalTo)
  | .bangEqual => some (.equality, .notEqualTo)
  | .less => some (.relation, .lessThan)
  | .lessEqual => some (.relation, .lessThanOrEqualTo)
  | .greater => some (.relation, .greaterThan)
  | .greaterEqual => some (.relation, .greaterThanOrEqualTo)
  | .plus => some (.sum, .plus)
  | .minus => some (.sum, .minus)
  | .star => some (.product, .times)
  | .slash => some (.product, .div)
  | _ => none

/-- The tokens that stand before their operand. -/
def prefixed? : Kind → Option UnaryOp
  | .plus => some .positive
  | .minus => some .negative
  | .bang => some .not
  | _ => none

/-- The value of a literal token. A number token whose text is no number has
none. -/
def literal? (t : Token) : Option Value :=
  match t.kind with
  | .number => (Double.ofText? t.lexeme).map .real
  | .string => some (.string (t.literal.getD ""))
  | .trueKw => some (.bool true)
  | .falseKw => some (.bool false)
  | .nilKw => some .nil
  | _ => none

-- =========================================================== expressions

/-- `Derives l ts e`: the tokens `ts` are an expression of level `l` with the
tree `e`. -/
inductive Derives : Level → List Token → Node → Prop where
  | assignment {x eq : Token} {ts : List Token} {value : Node} :
      x.kind = .identifier → eq.kind = .equal → Derives .assign ts value →
      Derives .assign (x :: eq :: ts) (.assignment x.lexeme value)
  | binary {l : Level} {op : BinaryOp} {t : Token} {us vs : List Token} {left right : Node} :
      binary? t.kind = some (l, op) → Derives l us left → Derives l.tighter vs right →
      Derives l (us ++ t :: vs) (.binary (.binary op) left right)
  | unary {op : UnaryOp} {t : Token} {ts : List Token} {operand : Node} :
      prefixed? t.kind = some op → Derives .prefixed ts operand →
      Derives .prefixed (t :: ts) (.unary (.unary op) operand)
  | literal {t : Token} {v : Value} :
      literal? t = some v → Derives .primary [t] (.literal v)
  | name {t : Token} :
      t.kind = .identifier → Derives .primary [t] (.variable t.lexeme)
  | group {left right : Token} {ts : List Token} {e : Node} :
      left.kind = .leftParen → right.kind = .rightParen → Derives .assign ts e →
      Derives .primary (left :: (ts ++ [right])) (.unary (.unary .group) e)
  | tighter {l : Level} {ts : List Token} {e : Node} :
      Derives l.tighter ts e → Derives l ts e

/-- An expression, which is of the loosest level. -/
abbrev Expression (ts : List Token) (e : Node) : Prop :=
  Derives .assign ts e

-- ============================================================ statements

mutual

/-- `Statement ts s`: the tokens `ts` are the statement `s`. An expression
with an assignment at its root is an assignment statement. -/
inductive Statement : List Token → Node → Prop where
  | print {first last : Token} {ts : List Token} {e : Node} :
      first.kind = .printKw → Expression ts e → last.kind = .semicolon →
      Statement (first :: (ts ++ [last])) (.printStmt e)
  | declare {first x last : Token} :
      first.kind = .varKw → x.kind = .identifier → last.kind = .semicolon →
      Statement [first, x, last] (.declare x.lexeme)
  | define {first x eq last : Token} {ts : List Token} {e : Node} :
      first.kind = .varKw → x.kind = .identifier → eq.kind = .equal → Expression ts e →
      last.kind = .semicolon →
      Statement (first :: x :: eq :: (ts ++ [last])) (.define x.lexeme e)
  | block {first last : Token} {ts : List Token} {ss : List Node} :
      first.kind = .leftBrace → Statements ts ss → last.kind = .rightBrace →
      Statement (first :: (ts ++ [last])) (.block ss)
  | assign {last : Token} {ts : List Token} {x : String} {value : Node} :
      Expression ts (.assignment x value) → last.kind = .semicolon →
      Statement (ts ++ [last]) (.assignStmt x value)
  | expression {last : Token} {ts : List Token} {e : Node} :
      Expression ts e → (∀ x value, e ≠ .assignment x value) → last.kind = .semicolon →
      Statement (ts ++ [last]) (.exprStmt e)

/-- Any number of statements, one after the other. -/
inductive Statements : List Token → List Node → Prop where
  | nil : Statements [] []
  | cons {us vs : List Token} {s : Node} {ss : List Node} :
      Statement us s → Statements vs ss → Statements (us ++ vs) (s :: ss)

end

/-- `Program ts ss`: the tokens `ts` are the statements `ss` and then the end
token. -/
def Program (ts : List Token) (ss : List Node) : Prop :=
  ∃ body last, ts = body ++ [last] ∧ last.kind = .eof ∧ Statements body ss

end Lox.Grammar

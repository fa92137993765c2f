import Lox.Text.Blank
import Lox.Text.Lines
import Lox.Text.Digit
import Lox.Text.Printable
import Lox.Text.Index
import Lox.Text.Quoted
import Lox.Double
import Lox.Double.Decimal
import Lox.Double.Numeral
import Lox.Double.Text
import Lox.Value
import Lox.Token
import Lox.Scanner
import Lox.Scanner.Manual
import Lox.Operator
import Lox.Node
import Lox.Node.Text
import Lox.Node.Outline
import Lox.Cursor
import Lox.Lookahead
import Lox.Postfix
import Lox.ParseFailure
import Lox.Yard
import Lox.Statement
import Lox.Value.Apply
import Lox.Scope
import Lox.Trace
import Lox.Eval
import Lox.Run
import Lox.Settings
import Lox.Highlight
import Lox.Prompt.Entry
import Lox.Prompt.Session
import Lox.Prompt.Loop
import Lox.Disk
import Lox.Command
import Lox.Main
import Lox.Proofs.Grammar
import Lox.Proofs.Postfix
import Lox.Proofs.Yard
import Lox.Proofs.Expression
import Lox.Proofs.Linearisation
import Lox.Proofs.Automaton
import Lox.Proofs.Shape
import Lox.Proofs.Targets
import Lox.Proofs.Source
import Lox.Proofs.Statement
import Lox.Proofs.Program
import Lox.Proofs.Scoping
import Lox.Proofs.Tokens
import Lox.Proofs.Effects
import Lox.Proofs.Run
import Lox.Proofs.Scanning
import Lox.Proofs.Tiling
import Lox.Proofs.Kinds
import Lox.Proofs.Positions
import Lox.Proofs.Breaks
import Lox.Proofs.Seam
import Lox.Proofs.Session
import Lox.Proofs.Layout
import Lox.Proofs.Reports
import Lox.Proofs.WellTyped
import Lox.Proofs.Objections
import Lox.Proofs.Verdict
import Lox.Proofs.ErrorSet
import Lox.Proofs.LineNumbers
import Lox.Proofs.Diagnostics
import Lox.Proofs.ExitCodes
import Lox.Proofs.CommandLine
import Lox.Proofs.Scopeless
import Lox.Proofs.Braces
import Lox.Proofs.Touching
import Lox.Proofs.LongestMatch
import Lox.Proofs.Parentheses
import Lox.Proofs.StatementText
import Lox.Proofs.Invisible
import Lox.Proofs.Completed
import Lox.Proofs.ScopeCalls
import Lox.Proofs.Journal
import Lox.Proofs.Present
import Lox.Proofs.Binders
import Lox.Proofs.Agreement
import Lox.Proofs.Digits
import Lox.Proofs.Rounding
import Lox.Proofs.Display
import Lox.Proofs.ReadBack
import Lox.Proofs.Shortest
import Lox.Proofs.LiteralText
import Lox.Proofs.Equality
import Lox.Proofs.Congruence
import Lox.Proofs.PrefixText
import Lox.Proofs.Outline
import Lox.Proofs.Indentation
import Lox.Proofs.Highlighting
import Lox.Proofs.DocumentLines
import Lox.Proofs.ByHand
import Lox.Proofs.Lookahead
import Lox.Proofs.Survival

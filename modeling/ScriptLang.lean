import ScriptLang.Binary64
import ScriptLang.Binary64.Nearest
import ScriptLang.CommandLine.Answer
import ScriptLang.CommandLine.Arguments
import ScriptLang.Decimal
import ScriptLang.Decimal.Read
import ScriptLang.Decimal.Shortest
import ScriptLang.Diagram
import ScriptLang.Environment
import ScriptLang.Execution
import ScriptLang.Grammar.Expr
import ScriptLang.Grammar.Rule
import ScriptLang.Grammar.Statement
import ScriptLang.Json
import ScriptLang.Log
import ScriptLang.Main
import ScriptLang.Operator
import ScriptLang.Program
import ScriptLang.Program.Json
import ScriptLang.Proofs.Binary64.Bits
import ScriptLang.Proofs.Binary64.Comparison
import ScriptLang.Proofs.Binary64.Denotation
import ScriptLang.Proofs.Binary64.Rounding
import ScriptLang.Proofs.Binary64.Truncation
import ScriptLang.Proofs.Decimal.Display
import ScriptLang.Proofs.Decimal.Layout
import ScriptLang.Proofs.Decimal.Shortest
import ScriptLang.Proofs.Diagram.Faithful
import ScriptLang.Proofs.Diagram.Lines
import ScriptLang.Proofs.Diagram.Numbering
import ScriptLang.Proofs.Diagram.Positions
import ScriptLang.Proofs.Diagram.Preorder
import ScriptLang.Proofs.Environment.Bindings
import ScriptLang.Proofs.Environment.History
import ScriptLang.Proofs.Execution.Dependence
import ScriptLang.Proofs.Execution.Ending
import ScriptLang.Proofs.Execution.Frame
import ScriptLang.Proofs.Execution.Termination
import ScriptLang.Proofs.Execution.Unrolling
import ScriptLang.Proofs.Execution.WholeNumbers
import ScriptLang.Proofs.Grammar.Accounting
import ScriptLang.Proofs.Grammar.Blame
import ScriptLang.Proofs.Grammar.Clauses
import ScriptLang.Proofs.Grammar.Completeness
import ScriptLang.Proofs.Grammar.Counting
import ScriptLang.Proofs.Grammar.Derivation
import ScriptLang.Proofs.Grammar.Descent
import ScriptLang.Proofs.Grammar.ElseIf
import ScriptLang.Proofs.Grammar.Extension
import ScriptLang.Proofs.Grammar.Finality
import ScriptLang.Proofs.Grammar.Fitting
import ScriptLang.Proofs.Grammar.Limit
import ScriptLang.Proofs.Grammar.Nesting
import ScriptLang.Proofs.Grammar.Placement
import ScriptLang.Proofs.Grammar.Prolonging
import ScriptLang.Proofs.Grammar.Reading
import ScriptLang.Proofs.Grammar.Soundness
import ScriptLang.Proofs.Grammar.Unambiguity
import ScriptLang.Proofs.Grammar.Writing
import ScriptLang.Proofs.Json.Reading
import ScriptLang.Proofs.Program.Concatenation
import ScriptLang.Proofs.Program.Decoding
import ScriptLang.Proofs.Program.FirstClause
import ScriptLang.Proofs.Program.Height
import ScriptLang.Proofs.Program.Leaves
import ScriptLang.Proofs.Program.Printing
import ScriptLang.Proofs.Program.ReadBack
import ScriptLang.Proofs.Program.RoundTrip
import ScriptLang.Proofs.Program.Spacing
import ScriptLang.Proofs.Program.WellFormed
import ScriptLang.Proofs.Text.Decoding
import ScriptLang.Proofs.Text.Literal
import ScriptLang.Proofs.Text.Quotation
import ScriptLang.Proofs.Token.Layout
import ScriptLang.Proofs.Token.Munch
import ScriptLang.Proofs.Token.Pattern
import ScriptLang.Proofs.Token.Place
import ScriptLang.Proofs.Token.Rebasing
import ScriptLang.Proofs.Token.Scanning
import ScriptLang.Proofs.Token.Seam
import ScriptLang.Proofs.Token.Tiling
import ScriptLang.Proofs.Value.MixedArithmetic
import ScriptLang.Proofs.Value.MixedOrder
import ScriptLang.Proofs.Value.Order
import ScriptLang.Proofs.Value.TypingPolicy
import ScriptLang.RuntimeError
import ScriptLang.Script
import ScriptLang.SyntaxError
import ScriptLang.Text.Escape
import ScriptLang.Token
import ScriptLang.Token.Json
import ScriptLang.Token.Scan
import ScriptLang.Value
import ScriptLang.Value.Arithmetic
import ScriptLang.Value.Order

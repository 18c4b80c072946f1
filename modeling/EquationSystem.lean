import EquationSystem.Binary64.Nearest
import EquationSystem.Binary64.Shortest
import EquationSystem.Decimal.Arithmetic
import EquationSystem.Decimal.Basic
import EquationSystem.Decimal.Binary
import EquationSystem.Decimal.Normal
import EquationSystem.Decimal.Numeral
import EquationSystem.Decimal.Order
import EquationSystem.Decimal.Quotient
import EquationSystem.Decimal.Render
import EquationSystem.Decimal.Rounding
import EquationSystem.Decimal.SquareRoot
import EquationSystem.Dependency.Order
import EquationSystem.Dependency.Search
import EquationSystem.Formula.Arithmetic
import EquationSystem.Formula.Bindings
import EquationSystem.Formula.Builtin
import EquationSystem.Formula.Call
import EquationSystem.Formula.EvalError
import EquationSystem.Formula.Expr
import EquationSystem.Formula.Lexer
import EquationSystem.Formula.Names
import EquationSystem.Formula.Operator
import EquationSystem.Formula.Parser
import EquationSystem.Formula.SyntaxError
import EquationSystem.Formula.Term
import EquationSystem.Formula.Token
import EquationSystem.Formula.Tree
import EquationSystem.Formula.Value
import EquationSystem.Json.Basic
import EquationSystem.Json.Fields
import EquationSystem.Json.Printer
import EquationSystem.Json.Reader
import EquationSystem.Main
import EquationSystem.Problem
import EquationSystem.Problem.FileError
import EquationSystem.Problem.Options
import EquationSystem.Proofs.Dependency.Consistency
import EquationSystem.Proofs.Dependency.Graph
import EquationSystem.Solver.Basic
import EquationSystem.Solver.Equation
import EquationSystem.Solver.Error
import EquationSystem.Solver.Event
import EquationSystem.Text.Ascii
import EquationSystem.Text.CodePoints
import EquationSystem.Text.Extending
import EquationSystem.Text.Quoted
import EquationSystem.Text.Unprintable
import EquationSystem.Proofs.Dependency.Traversal
import EquationSystem.Proofs.Dependency.Components
import EquationSystem.Proofs.Dependency.Sorting
import EquationSystem.Proofs.Formula.References
import EquationSystem.Proofs.Solver.Evaluation
import EquationSystem.Proofs.Solver.Solution
import EquationSystem.Proofs.Formula.Grammar
import EquationSystem.Proofs.Formula.Readings
import EquationSystem.Proofs.Formula.Recognition
import EquationSystem.Proofs.Formula.Placement
import EquationSystem.Proofs.Formula.Viability
import EquationSystem.Proofs.Formula.Missing
import EquationSystem.Proofs.Formula.Visits
import EquationSystem.Proofs.Solver.Availability
import EquationSystem.Proofs.Solver.Attribution
import EquationSystem.Proofs.Solver.History
import EquationSystem.Proofs.Solver.Independence
import EquationSystem.Proofs.Solver.Locality
import EquationSystem.Proofs.Dependency.DepthFirst
import EquationSystem.Proofs.Dependency.Refinement
import EquationSystem.Proofs.Decimal.Value
import EquationSystem.Proofs.Decimal.Comparison
import EquationSystem.Proofs.Decimal.Rounding
import EquationSystem.Proofs.Formula.Exact
import EquationSystem.Proofs.Formula.Products
import EquationSystem.Proofs.Formula.Exactness
import EquationSystem.Proofs.Formula.Numerals
import EquationSystem.Proofs.Formula.Tokens
import EquationSystem.Proofs.Formula.Lexicon
import EquationSystem.Proofs.Formula.Spans
import EquationSystem.Proofs.Formula.Negation
import EquationSystem.Proofs.Formula.Literals
import EquationSystem.Proofs.Formula.Variables
import EquationSystem.Proofs.Formula.Missteps
import EquationSystem.Proofs.Formula.Denotation
import EquationSystem.Proofs.Json.Literal
import EquationSystem.Proofs.Decimal.Normal
import EquationSystem.Proofs.Json.Fields
import EquationSystem.Proofs.Json.Objects
import EquationSystem.Proofs.Json.Printing
import EquationSystem.Proofs.Solver.Constants
import EquationSystem.Proofs.Problem.Registering
import EquationSystem.Proofs.Problem.Numbers
import EquationSystem.Proofs.Formula.LineFeeds
import EquationSystem.Proofs.Solver.LineEndings
import EquationSystem.Proofs.Formula.Connectives
import EquationSystem.Proofs.Formula.Nesting
import EquationSystem.Proofs.Formula.Patterns
import EquationSystem.Proofs.Decimal.Grid
import EquationSystem.Proofs.Decimal.Quotient
import EquationSystem.Proofs.Decimal.Power
import EquationSystem.Proofs.Decimal.Scales
import EquationSystem.Proofs.Decimal.Aggregates
import EquationSystem.Proofs.Decimal.Deviation
import EquationSystem.Proofs.Formula.Functions
import EquationSystem.Proofs.Formula.Height
import EquationSystem.Proofs.Formula.Faults
import EquationSystem.Proofs.Solver.Events
import EquationSystem.Proofs.Formula.Figures
import EquationSystem.Proofs.Formula.Conversion
import EquationSystem.Proofs.Formula.Scales
import EquationSystem.Proofs.Solver.Scales
import EquationSystem.Proofs.Dependency.Access
import EquationSystem.Proofs.Dependency.Iterations

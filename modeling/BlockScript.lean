import BlockScript.Analysis.Checked
import BlockScript.Analysis.Error
import BlockScript.Analysis.Expression
import BlockScript.Analysis.Operation
import BlockScript.Analysis.Program
import BlockScript.Analysis.Statement
import BlockScript.Analysis.Tables
import BlockScript.Builtin
import BlockScript.CommandLine
import BlockScript.CommandLine.Arguments
import BlockScript.CommandLine.Path
import BlockScript.Datum
import BlockScript.Datum.Json
import BlockScript.Error
import BlockScript.Evaluation.Error
import BlockScript.Evaluation.Interpreter
import BlockScript.Evaluation.Operation
import BlockScript.Evaluation.World
import BlockScript.Java.Emission
import BlockScript.Java.Literal
import BlockScript.Java.Printer
import BlockScript.Java.Tree
import BlockScript.Json
import BlockScript.Json.Reader
import BlockScript.Json.Writer
import BlockScript.Main
import BlockScript.Node
import BlockScript.Node.Json
import BlockScript.Node.Parser
import BlockScript.Node.ShapeError
import BlockScript.Node.SyntaxError
import BlockScript.Numeral.Decimal
import BlockScript.Numeral.Double
import BlockScript.Numeral.Notation
import BlockScript.Numeral.Power
import BlockScript.Operator
import BlockScript.Proofs.Accepted
import BlockScript.Proofs.Analysis.Annotation
import BlockScript.Proofs.Analysis.Declaration
import BlockScript.Proofs.Analysis.Distinct
import BlockScript.Proofs.Analysis.Growth
import BlockScript.Proofs.Analysis.Numbering
import BlockScript.Proofs.Analysis.Program
import BlockScript.Proofs.Analysis.Resolved
import BlockScript.Proofs.Analysis.Returns
import BlockScript.Proofs.Analysis.Soundness
import BlockScript.Proofs.Analysis.Typing
import BlockScript.Proofs.Analysis.Verdict
import BlockScript.Proofs.Analysis.Yields
import BlockScript.Proofs.CommandLine.Call
import BlockScript.Proofs.CommandLine.EmittedTree
import BlockScript.Proofs.CommandLine.TreeFile
import BlockScript.Proofs.Comparison
import BlockScript.Proofs.Compilation
import BlockScript.Proofs.Drafting.Agreement
import BlockScript.Proofs.Drafting.Draft
import BlockScript.Proofs.Escape
import BlockScript.Proofs.Exiting.Activation
import BlockScript.Proofs.Exiting.Agreement
import BlockScript.Proofs.Exiting.Interpreter
import BlockScript.Proofs.Grammar
import BlockScript.Proofs.Java.Evaluation
import BlockScript.Proofs.Java.Grammar
import BlockScript.Proofs.Java.Lexer
import BlockScript.Proofs.Java.Quoted
import BlockScript.Proofs.Java.Reading
import BlockScript.Proofs.Java.Regrouping
import BlockScript.Proofs.Java.Scoping
import BlockScript.Proofs.Java.Unambiguous
import BlockScript.Proofs.Json.Text
import BlockScript.Proofs.Json.Tree
import BlockScript.Proofs.Judgement.Decides
import BlockScript.Proofs.Judgement.Environment
import BlockScript.Proofs.Judgement.Expression
import BlockScript.Proofs.Judgement.Function
import BlockScript.Proofs.Judgement.Global
import BlockScript.Proofs.Judgement.Program
import BlockScript.Proofs.Judgement.Rules
import BlockScript.Proofs.Judgement.Statement
import BlockScript.Proofs.Layout
import BlockScript.Proofs.Lexeme
import BlockScript.Proofs.Literal
import BlockScript.Proofs.Naming.Apart
import BlockScript.Proofs.Naming.Emitted
import BlockScript.Proofs.Naming.Program
import BlockScript.Proofs.Naming.Resolution
import BlockScript.Proofs.Naming.Spelling
import BlockScript.Proofs.Nesting.Emitted
import BlockScript.Proofs.Nesting.Outline
import BlockScript.Proofs.Nesting.Printed
import BlockScript.Proofs.Nesting.Returns
import BlockScript.Proofs.Nesting.Settled
import BlockScript.Proofs.Nesting.Unreachable
import BlockScript.Proofs.Numeral
import BlockScript.Proofs.Numeral.Arithmetic
import BlockScript.Proofs.Numeral.Division
import BlockScript.Proofs.Numeral.Gives
import BlockScript.Proofs.Numeral.Remainder
import BlockScript.Proofs.Numeral.Truncation
import BlockScript.Proofs.Numeral.Value
import BlockScript.Proofs.Order.Emitted
import BlockScript.Proofs.Order.Program
import BlockScript.Proofs.Order.Run
import BlockScript.Proofs.Order.Steps
import BlockScript.Proofs.Parser.Completeness.Expression
import BlockScript.Proofs.Parser.Completeness.Program
import BlockScript.Proofs.Parser.Completeness.Statement
import BlockScript.Proofs.Parser.Derivation
import BlockScript.Proofs.Parser.Fresh
import BlockScript.Proofs.Parser.Fuel
import BlockScript.Proofs.Parser.Lookahead
import BlockScript.Proofs.Parser.Placement
import BlockScript.Proofs.Parser.Reading
import BlockScript.Proofs.Parser.Regular
import BlockScript.Proofs.Parser.Soundness
import BlockScript.Proofs.Parser.Stepwise
import BlockScript.Proofs.Parser.Viability
import BlockScript.Proofs.Renaming.Analysis
import BlockScript.Proofs.Renaming.Evaluation
import BlockScript.Proofs.Renaming.Extension
import BlockScript.Proofs.Renaming.Program
import BlockScript.Proofs.Renaming.Scope
import BlockScript.Proofs.Renaming.Source
import BlockScript.Proofs.Renaming.Tree
import BlockScript.Proofs.Renaming.World
import BlockScript.Proofs.Reordering.Analysis
import BlockScript.Proofs.Reordering.Emission
import BlockScript.Proofs.Reordering.Program
import BlockScript.Proofs.Reordering.Run
import BlockScript.Proofs.Repetition.Analysis
import BlockScript.Proofs.Repetition.Expression
import BlockScript.Proofs.Repetition.Filled
import BlockScript.Proofs.Repetition.Global
import BlockScript.Proofs.Repetition.Lists
import BlockScript.Proofs.Repetition.Program
import BlockScript.Proofs.Repetition.Statement
import BlockScript.Proofs.Scope
import BlockScript.Proofs.Scope.History
import BlockScript.Proofs.Scope.Lookup
import BlockScript.Proofs.Scoped.Agreement
import BlockScript.Proofs.Scoped.Changes
import BlockScript.Proofs.Scoped.Frame
import BlockScript.Proofs.Scoped.Interpreter
import BlockScript.Proofs.Scoped.Output
import BlockScript.Proofs.Scoped.Session
import BlockScript.Proofs.Scoped.World
import BlockScript.Proofs.Session.Command
import BlockScript.Proofs.Session.Effect
import BlockScript.Proofs.Session.Independence
import BlockScript.Proofs.Session.Scopes
import BlockScript.Proofs.Session.Verbosity
import BlockScript.Proofs.Shaped.Analysis
import BlockScript.Proofs.Shaped.Run
import BlockScript.Proofs.Shaped.Tree
import BlockScript.Proofs.Shaped.World
import BlockScript.Proofs.Surface.Composition
import BlockScript.Proofs.Surface.Evaluation
import BlockScript.Proofs.Surface.World
import BlockScript.Proofs.Surface.Writes
import BlockScript.Proofs.Switch.Chain
import BlockScript.Proofs.Switch.InStep
import BlockScript.Proofs.Switch.Twins
import BlockScript.Proofs.Token.Layout
import BlockScript.Proofs.Token.Terminal
import BlockScript.Proofs.Token.Tokenization
import BlockScript.Proofs.Watched.Agreement
import BlockScript.Proofs.Watched.Erasure
import BlockScript.Proofs.Watched.Fits
import BlockScript.Proofs.Watched.Interpreter
import BlockScript.Proofs.Watched.Invariant
import BlockScript.Proofs.Watched.Point
import BlockScript.Proofs.Watched.Preservation
import BlockScript.Proofs.Watched.Program
import BlockScript.Proofs.Watched.Safety
import BlockScript.Proofs.Watched.World
import BlockScript.Scope
import BlockScript.Scope.Registry
import BlockScript.Scope.Store
import BlockScript.Session
import BlockScript.Text.Blank
import BlockScript.Text.Digit
import BlockScript.Text.Escape
import BlockScript.Text.Printable
import BlockScript.Text.Quoted
import BlockScript.Token
import BlockScript.Token.Lexer
import BlockScript.Trace
import BlockScript.Ty

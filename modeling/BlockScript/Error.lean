import BlockScript.Analysis.Checked
import BlockScript.Datum.Json
import BlockScript.Evaluation.World
import BlockScript.Java.Emission
import BlockScript.Node.SyntaxError
/-!
# Errors of the toolchain

What any of the tools can report, with the heading under which it is reported.

## Main definitions

* `ToolError` — the errors of all tools
* `SyntaxError.report`, `AnalysisError.report`, `EvaluationError.report`, `ScopeError.report` —
  messages with their headings
-/

namespace BlockScript

/-- The message under its heading. -/
def SyntaxError.report (e : SyntaxError) : String :=
  "SyntaxError: " ++ e.message

/-- The message under its heading. -/
def AnalysisError.report (e : AnalysisError) : String :=
  "TypeError: " ++ e.message

/-- The message under its heading. -/
def EvaluationError.report (e : EvaluationError) : String :=
  "RuntimeError: " ++ e.message

/-- The message under its heading. -/
def ScopeError.report (e : ScopeError) : String :=
  "NameError: " ++ e.message

/-- The errors of all tools. -/
inductive ToolError where
  /-- A source text is refused. -/
  | source (error : SyntaxError)
  /-- A JSON value is not the form of a tree. -/
  | format (error : FormatError)
  /-- A program breaks a rule of the language. -/
  | analysis (error : AnalysisError)
  /-- A run stops with an error. -/
  | evaluation (error : EvaluationError)
  /-- A tree cannot be walked. -/
  | shape (error : ShapeError)
  /-- The precedence of an unknown operator is needed. -/
  | operator (symbol : String)
  /-- A result is a decimal that is too great. -/
  | overflow
  /-- A built-in function was called without its argument. -/
  | missingArgument
  /-- A run used up its fuel. -/
  | outOfFuel
  deriving DecidableEq, Repr

namespace ToolError

/-- The error that makes a check fail. -/
def ofFault : AnalysisFault → ToolError
  | .refused error => analysis error
  | .misshapen error => shape error

/-- The error that makes a run fail. -/
def ofFailure : Failure → ToolError
  | .error error => evaluation error
  | .misshapen error => shape error
  | .overflow => overflow
  | .missingArgument => missingArgument
  | .outOfFuel => outOfFuel

/-- The error that makes emitting fail. -/
def ofEmission : EmissionError → ToolError
  | .misshapen error => shape error
  | .unknownOperator symbol => operator symbol

/-- The error in words, under its heading if it has one. -/
def report : ToolError → String
  | source error => error.report
  | format error => error.message
  | analysis error => error.report
  | evaluation error => error.report
  | shape error => error.message
  | operator symbol => (EmissionError.unknownOperator symbol).message
  | overflow => "decimal overflow"
  | missingArgument => "missing argument"
  | outOfFuel => "out of fuel"

end ToolError

end BlockScript

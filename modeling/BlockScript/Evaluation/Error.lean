import BlockScript.Datum
import BlockScript.Operator
import BlockScript.Scope
/-!
# Evaluation errors

Everything that a run can report to its caller. An operator can also fail without an error of the
program, when its result is beyond the greatest decimal.

## Main definitions

* `EvaluationError` — the causes
* `EvaluationError.message` — the causes in words
* `OperationFault` — why an operator has no value
-/

namespace BlockScript

/-- Why a run stops with an error. -/
inductive EvaluationError where
  | scope (error : ScopeError)
  | wrongArgumentCount (name : String) (expected received : Nat)
  | notBoolean (received : Kind)
  | notList (name : String)
  | offsetNotInteger (received : Kind)
  | offsetOutOfRange (offset : Int)
  | immutable (name : String)
  | notAssignable
  | unsupportedOperands (op : Operator) (left right : Kind)
  | divisionByZero
  | negativeExponent (exponent : Int)
  | unsupportedOperator (symbol : String)
  deriving DecidableEq, Repr

namespace EvaluationError

/-- The error in words. -/
def message : EvaluationError → String
  | scope error => error.message
  | wrongArgumentCount name expected received =>
    name ++ " expects " ++ toString expected ++ " arguments, received " ++ toString received
  | notBoolean received => "expected Boolean, received " ++ received.name
  | notList name => name ++ " is not a list"
  | offsetNotInteger received => "list offset must be Integer, received " ++ received.name
  | offsetOutOfRange offset => "list offset " ++ toString offset ++ " out of range"
  | immutable name => "cannot assign to immutable " ++ name
  | notAssignable => "assignment receiver must be a variable or list element"
  | unsupportedOperands op left right =>
    "unsupported operands for " ++ op.text ++ ": " ++ left.name ++ " and " ++ right.name
  | divisionByZero => "division by zero"
  | negativeExponent exponent => "negative exponent " ++ toString exponent
  | unsupportedOperator symbol => "unsupported operator " ++ symbol

end EvaluationError

/-- Why an operator has no value for two operands. -/
inductive OperationFault where
  /-- The operands are not allowed. -/
  | refused (error : EvaluationError)
  /-- The result is a decimal that is too great. -/
  | overflow
  deriving DecidableEq, Repr

end BlockScript

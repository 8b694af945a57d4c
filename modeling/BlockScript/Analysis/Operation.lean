import BlockScript.Analysis.Error
import BlockScript.Datum
/-!
# Types of literals and of operations

## Main definitions

* `Scalar.ty` — the type of a literal
* `Operator.resultTy` — the type of an operation, from the types of its operands
* `symbolTy` — the same for an operator given as text
-/

namespace BlockScript

/-- The type of a literal. -/
def Scalar.ty : Scalar → Ty
  | .nil => .nil
  | .boolean _ => .boolean
  | .integer _ => .integer
  | .decimal _ => .decimal
  | .character _ => .character
  | .string _ => .string

namespace Operator

/-- Two operands of a common type `target`: each is accepted there, and the right one also where
the left one's type is expected. -/
def requireCommon (target : Ty) (left right : Option Ty) : Except AnalysisError Unit := do
  requireAccepted (some target) left
  requireAccepted (some target) right
  requireAccepted left right

/-- The type of an arithmetic operation: that of its operands, two integers or two decimals. -/
def arithmeticTy (op : Operator) (left right : Option Ty) : Except AnalysisError Ty :=
  if left = some .integer ∧ right = some .integer then .ok .integer
  else if left = some .decimal ∧ right = some .decimal then .ok .decimal
  else .error (.arithmeticOperands op left right)

/-- The type of an operation, from the types of its operands. -/
def resultTy (op : Operator) (left right : Option Ty) : Except AnalysisError Ty :=
  match op with
  | and | or => do
    requireCommon .boolean left right
    return .boolean
  | less | greater | equal | unequal => do
    requireCommon .comparable left right
    return .boolean
  | plus =>
    if left = some .string ∨ right = some .string then .ok .string
    else arithmeticTy op left right
  | minus | times | divide => arithmeticTy op left right
  | power =>
    if left = some .integer ∧ right = some .integer then .ok .integer
    else .error (.powerOperands left right)

end Operator

/-- The type of an operation whose operator is given by its written form. -/
def symbolTy (symbol : String) (left right : Option Ty) : Except AnalysisError Ty :=
  match Operator.ofText? symbol with
  | some op => op.resultTy left right
  | none => .error (.unknownOperator symbol)

end BlockScript

import BlockScript.Evaluation.Error
/-!
# Operators on values

What the operators compute. Arithmetic takes two integers or two decimals; the power takes two
integers; plus also joins texts if one side is a string; equality takes anything; order takes two
values of one ordered kind. Sums, differences and products of decimals are exact as far as the range
of exponents allows. The two logical operators are not among them, because they need not look at
their right operand: evaluation treats them itself.

## Main definitions

* `Scalar.order?`, `Datum.order?` — the order of two values, where there is one
* `divideInteger` — the quotient of two integers, rounded toward zero
* `Operator.apply` — the value of an operator on two operands
* `applySymbol` — the same for an operator given as text
-/

namespace BlockScript

/-- The order of two scalars of one ordered kind: numbers by value, texts by code points. -/
def Scalar.order? : Scalar → Scalar → Option Ordering
  | .integer a, .integer b => some (compare a b)
  | .decimal a, .decimal b => some (a.order b)
  | .character a, .character b => some (compare a b)
  | .string a, .string b => some (compare a b)
  | _, _ => none

/-- The order of two data: only scalars have one. -/
def Datum.order? : Datum → Datum → Option Ordering
  | .scalar a, .scalar b => a.order? b
  | _, _ => none

/-- The quotient of two integers rounded toward zero: the quotient of the magnitudes, with a minus
if the signs differ. -/
def divideInteger (a b : Int) : Int :=
  let quotient : Int := (a.natAbs / b.natAbs : Nat)
  if decide (0 ≤ a) = decide (0 < b) then quotient else -quotient

namespace Operator

/-- The error that an operator does not take operands of these kinds. -/
def refuse (op : Operator) (a b : Datum) : Except OperationFault Scalar :=
  .error (.refused (.unsupportedOperands op a.kind b.kind))

/-- The result of exact arithmetic on decimals: brought into range, unless it is too great. -/
def decimalResult (value : Decimal) : Except OperationFault Scalar :=
  if value.overflows then .error .overflow else .ok (.decimal value.rounded)

/-- The sum of two numbers, or two texts joined if one of the operands is a string. -/
def applyPlus (a b : Datum) : Except OperationFault Scalar :=
  match a, b with
  | .scalar (.integer m), .scalar (.integer n) => .ok (.integer (m + n))
  | .scalar (.decimal m), .scalar (.decimal n) => decimalResult (m.add n)
  | _, _ =>
    if a.kind = .string ∨ b.kind = .string then .ok (.string (a.text ++ b.text))
    else refuse plus a b

/-- The difference of two numbers. -/
def applyMinus (a b : Datum) : Except OperationFault Scalar :=
  match a, b with
  | .scalar (.integer m), .scalar (.integer n) => .ok (.integer (m - n))
  | .scalar (.decimal m), .scalar (.decimal n) => decimalResult (m.sub n)
  | _, _ => refuse minus a b

/-- The product of two numbers. -/
def applyTimes (a b : Datum) : Except OperationFault Scalar :=
  match a, b with
  | .scalar (.integer m), .scalar (.integer n) => .ok (.integer (m * n))
  | .scalar (.decimal m), .scalar (.decimal n) => decimalResult (m.mul n)
  | _, _ => refuse times a b

/-- The quotient of two numbers: of integers, rounded toward zero; of decimals, at the dividend's
scale. -/
def applyDivide (a b : Datum) : Except OperationFault Scalar :=
  match a, b with
  | .scalar (.integer m), .scalar (.integer n) =>
    if n = 0 then .error (.refused .divisionByZero) else .ok (.integer (divideInteger m n))
  | .scalar (.decimal m), .scalar (.decimal n) =>
    if n.isZero then .error (.refused .divisionByZero) else .ok (.decimal (m.divide n))
  | _, _ => refuse divide a b

/-- An integer raised to an integer that is not negative. -/
def applyPower (a b : Datum) : Except OperationFault Scalar :=
  match a, b with
  | .scalar (.integer m), .scalar (.integer n) =>
    if n < 0 then .error (.refused (.negativeExponent n))
    else .ok (.integer (integerPower m n.toNat))
  | _, _ => refuse power a b

/-- Whether the first of two ordered values stands to the second as `wanted` says. -/
def applyOrder (op : Operator) (wanted : Ordering) (a b : Datum) :
    Except OperationFault Scalar :=
  match a.order? b with
  | some found => .ok (.boolean (found == wanted))
  | none => refuse op a b

/-- The value of an operator on two operands. The logical operators are not supported here. -/
def apply (op : Operator) (a b : Datum) : Except OperationFault Scalar :=
  match op with
  | plus => applyPlus a b
  | minus => applyMinus a b
  | times => applyTimes a b
  | divide => applyDivide a b
  | power => applyPower a b
  | equal => .ok (.boolean (a.same b))
  | unequal => .ok (.boolean (!a.same b))
  | less => applyOrder less .lt a b
  | greater => applyOrder greater .gt a b
  | and | or => .error (.refused (.unsupportedOperator op.text))

end Operator

/-- The value of the operator with the given written form on two operands. -/
def applySymbol (symbol : String) (a b : Datum) : Except OperationFault Scalar :=
  match Operator.ofText? symbol with
  | some op => op.apply a b
  | none => .error (.refused (.unsupportedOperator symbol))

end BlockScript

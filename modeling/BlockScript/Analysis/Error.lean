import BlockScript.Operator
import BlockScript.Scope
import BlockScript.Ty
/-!
# Analysis errors

Everything that the analysis can hold against a program. A static type may be absent (see
`BlockScript.Ty`), and is then shown as such.

## Main definitions

* `AnalysisError` — the causes
* `AnalysisError.message` — the causes in words
* `requireAccepted` — the check that a value may be stored where a type is expected
* `Ty.named` — the type of a name, or the error that there is none
-/

namespace BlockScript

/-- Why the analysis refuses a program. -/
inductive AnalysisError where
  | unknownType (name : String)
  | mismatch (expected received : Option Ty)
  | scope (error : ScopeError)
  | bareGlobal (name : String)
  | bareDeclaration (name : String)
  | notACall
  | notAssignable
  | immutable (name : String)
  | emptyBranch
  | missingDefault
  | earlyDefault
  | returnOutsideFunction
  | groupedNonBinary
  | offsetNotInteger (received : Option Ty)
  | notAList (name : String)
  | listWithoutOffset (name : String)
  | arithmeticOperands (op : Operator) (left right : Option Ty)
  | powerOperands (left right : Option Ty)
  | unknownOperator (symbol : String)
  deriving DecidableEq, Repr

namespace AnalysisError

/-- The error in words. -/
def message : AnalysisError → String
  | unknownType name => "unknown type " ++ name
  | mismatch expected received =>
    "expected " ++ Ty.label expected ++ ", received " ++ Ty.label received
  | scope error => error.message
  | bareGlobal name => "global " ++ name ++ " needs a type or an initial value"
  | bareDeclaration name => "declaration of " ++ name ++ " needs a type or an initial value"
  | notACall => "expression statement must be a function call"
  | notAssignable => "assignment receiver must be a variable or list element"
  | immutable name => "cannot assign to immutable " ++ name
  | emptyBranch => "IF requires at least one statement in its DO block"
  | missingDefault => "the last case of a SWITCH must be DEFAULT"
  | earlyDefault => "only the last case of a SWITCH may be DEFAULT"
  | returnOutsideFunction => "RETURN outside of a function"
  | groupedNonBinary => "parentheses may only group a binary expression"
  | offsetNotInteger received => "list offset must be Integer, received " ++ Ty.label received
  | notAList name => name ++ " is not a list"
  | listWithoutOffset name => "list " ++ name ++ " must be accessed with an offset"
  | arithmeticOperands op left right =>
    "operator " ++ op.text ++ " needs two Integers or two Decimals, received " ++
      Ty.label left ++ " and " ++ Ty.label right
  | powerOperands left right =>
    "operator ^ needs two Integers, received " ++ Ty.label left ++ " and " ++ Ty.label right
  | unknownOperator symbol => "unknown operator " ++ symbol

end AnalysisError

/-- Checks that a value of type `source` may be stored where `target` is expected. -/
def requireAccepted (target source : Option Ty) : Except AnalysisError Unit :=
  if Ty.accepts target source then .ok () else .error (.mismatch target source)

/-- The type of a name. -/
def Ty.named (name : String) : Except AnalysisError Ty :=
  match Ty.ofName? name with
  | some t => .ok t
  | none => .error (.unknownType name)

end BlockScript

import BlockScript.Java.Printer
import BlockScript.Node.ShapeError
import BlockScript.Operator
import BlockScript.Text.Quoted
/-!
# Emitting Java

An annotated program becomes one Java class: global variables become fields, functions become
methods, and a function `main` without parameters gets an entry point. All names and types come from
the annotations.

Java has more levels of precedence than the language, so an operand gets parentheses where Java
would read the expression differently: if its operator binds looser than the one above it, or
equally and it stands on the right. A power becomes a call and needs none.

A function without a result cannot return a value in Java; there a return keeps its value only if
this is a call, as a statement before the return.

## Main definitions

* `Operator.javaPrecedence` — how tight an operator binds in Java
* `EmissionError` — why a tree has no Java form
* `emitExpression`, `emitStatement`, `emitProgram` — the Java forms of trees
-/

namespace BlockScript

/-- How tight an operator binds in Java; a higher number binds tighter. -/
def Operator.javaPrecedence : Operator → Nat
  | .or => 1
  | .and => 2
  | .equal | .unequal => 3
  | .less | .greater => 4
  | .plus | .minus => 5
  | .times | .divide => 6
  | .power => 7

/-- Why a tree has no Java form. -/
inductive EmissionError where
  /-- The tree cannot be walked, or an annotation is absent. -/
  | misshapen (error : ShapeError)
  /-- The precedence of an unknown operator is needed. -/
  | unknownOperator (symbol : String)
  deriving DecidableEq, Repr

namespace EmissionError

/-- The error in words. -/
def message : EmissionError → String
  | misshapen error => error.message
  | unknownOperator symbol => "no precedence for operator " ++ Text.quoted symbol

end EmissionError

/-- Results of emitting. -/
abbrev Emission : Type → Type := Except EmissionError

/-- The failure to emit an incomplete node. -/
def Emission.incomplete {α : Type} : Emission α :=
  .error (.misshapen .incomplete)

/-- A part or annotation that must be there. -/
def Emission.present {α : Type} : Option α → Emission α
  | some a => .ok a
  | none => incomplete

/-- How tight the operator with a given written form binds in Java. -/
def precedenceOf (symbol : String) : Emission Nat :=
  match Operator.ofText? symbol with
  | some op => .ok op.javaPrecedence
  | none => .error (.unknownOperator symbol)

/-- The sides of a binary operator. -/
inductive Side where
  | left
  | right
  deriving DecidableEq, Repr, Inhabited

/-- The Java form of an operand of the operator `parent`, given the Java form of the node itself.
Only a binary operation can need parentheses, and no operand of a power does. -/
def parenthesize (parent : String) (side : Side) (node : Node) (form : Java.Expression) :
    Emission Java.Expression :=
  match node with
  | .binary symbol _ _ _ =>
    if parent = Operator.power.text then .ok form
    else do
      let inner ← precedenceOf symbol
      let outer ← precedenceOf parent
      if inner < outer ∨ (side = .right ∧ inner = outer) then
        return .parentheses form
      else
        return form
  | _ => .ok form

mutual

/-- The Java form of an expression. -/
def emitExpression : Node → Emission Java.Expression
  | .literal value _ => .ok (.literal value)
  | .group inner _ => do
    return .parentheses (← emitExpression inner)
  | .binary symbol left right _ => do
    let leftForm ← parenthesize symbol .left left (← emitExpression left)
    let rightForm ← parenthesize symbol .right right (← emitExpression right)
    if symbol = Operator.power.text then
      return .power leftForm rightForm
    else
      return .binary symbol leftForm rightForm
  | .access _ offset _ binding => do
    let found ← Emission.present binding
    if offset.isNull then
      return .name found.name
    else
      return .element found.name (← emitExpression offset)
  | .call _ arguments _ callee => do
    let forms ← emitAll arguments
    let found ← Emission.present callee
    return .call found.javaName forms
  | .listLiteral values _ => do
    return .braces (← emitAll values)
  | other => .error (.misshapen (.unexpected .emitExpression other.kind?))

/-- The Java forms of several expressions. -/
def emitAll : List Node → Emission (List Java.Expression)
  | [] => .ok []
  | node :: rest => do
    let form ← emitExpression node
    return form :: (← emitAll rest)

end

/-- The Java form of an initial value, which may be absent. -/
def emitInitial (value : Node) : Emission (Option Java.Expression) :=
  if value.isNull then .ok none else do
    return some (← emitExpression value)

mutual

/-- The Java form of a statement in a function with the given type of result. -/
def emitStatement (result : Ty) : Node → Emission (List Java.Statement)
  | .discard expression => do
    return [.expression (← emitExpression expression)]
  | .declaration _ _ value binding => do
    let found ← Emission.present binding
    let ty ← Emission.present found.type
    return [.localVariable ty.javaName found.name (← emitInitial value)]
  | .assignment receiver value => do
    let target ← emitExpression receiver
    return [.assignment target (← emitExpression value)]
  | .branch condition thenBody elseBody => do
    let test ← emitExpression condition
    let thenForm ← emitBlock result thenBody
    let elseForm ← emitBlock result elseBody
    return [.ifElse test thenForm elseForm]
  | .switch condition cases => do
    let test ← emitExpression condition
    return [.switch test (← emitCases result cases)]
  | .loop condition body => do
    let test ← emitExpression condition
    return [.whileLoop test (← emitBlock result body)]
  | .ret value =>
    if result = .nil then
      if value.kind? = some .call then do
        return [.expression (← emitExpression value), .exit none]
      else .ok [.exit none]
    else do
      return [.exit (some (← emitExpression value))]
  | other => .error (.misshapen (.unexpected .emitStatement other.kind?))

/-- The Java form of several statements. -/
def emitBlock (result : Ty) : List Node → Emission (List Java.Statement)
  | [] => .ok []
  | statement :: rest => do
    let form ← emitStatement result statement
    return form ++ (← emitBlock result rest)

/-- The Java form of the cases of a switch. A group with a label ends with a break. -/
def emitCases (result : Ty) :
    List Node → Emission (List (Option Java.Expression × List Java.Statement))
  | [] => .ok []
  | .case value body :: rest =>
    if value.isNull then do
      let form ← emitBlock result body
      return (none, form) :: (← emitCases result rest)
    else do
      let label ← emitExpression value
      let form ← emitBlock result body
      return (some label, form ++ [.breakOut]) :: (← emitCases result rest)
  | node :: _ => do
    let value ← Emission.present node.value?
    let _ ← emitInitial value
    Emission.incomplete

end

/-- The Java form of a global variable. -/
def emitGlobal : Node → Emission Java.Field
  | .global _ mutable _ value isList binding => do
    let found ← Emission.present binding
    let ty ← Emission.present found.type
    let shape : Java.FieldShape :=
      if isList then .array else if mutable then .plain else .constant
    return { shape, type := ty.javaName, name := found.name, value := ← emitInitial value }
  | _ => Emission.incomplete

/-- The Java type of a result of the given type. -/
def javaResult (ty : Ty) : String :=
  if ty = .nil then "void" else ty.javaName

/-- The Java form of a function. -/
def emitFunction : Node → Emission Java.Method
  | .function _ parameters _ _ body signature => do
    let found ← Emission.present signature
    let typed := (parameters.zip found.parameters).map fun (name, ty) => (ty.javaName, name)
    return {
      result := javaResult found.result
      name := found.javaName
      parameters := typed
      body := ← emitBlock found.result body }
  | _ => Emission.incomplete

/-- The entry point: whether one of the functions is a `main` without parameters, and whether its
result is an integer. -/
def emitEntry : List Node → Emission (Option Bool)
  | [] => .ok none
  | .function name parameters _ _ _ signature :: rest =>
    if name = "main" ∧ parameters = [] then do
      let found ← Emission.present signature
      return some (found.result = .integer)
    else emitEntry rest
  | node :: rest =>
    match node.name? with
    | some name => if name = "main" then Emission.incomplete else emitEntry rest
    | none => Emission.incomplete

/-- The Java form of a program. -/
def emitProgram : Node → Emission Java.Program
  | .program globals functions => do
    let fields ← globals.mapM emitGlobal
    let entry ← emitEntry functions
    let methods ← functions.mapM emitFunction
    return { fields, entry, methods }
  | _ => Emission.incomplete

end BlockScript

import BlockScript.Analysis.Statement
/-!
# Checking programs

The global variables are checked in order, so that each can use those before it. Then the
signatures of all functions are declared, so that every body can call every function, and then the
bodies are checked.

## Main definitions

* `checkGlobal`, `declareFunction`, `checkFunction` — the parts of a program
* `checkProgram` — a whole program
-/

namespace BlockScript

/-- A list literal takes the declared type of its variable as the type of its elements; it forgets
an earlier one. -/
def withElementTy (declared : Option Ty) : Node → Node
  | .listLiteral values _ => .listLiteral values declared
  | other => other

/-- Checks the declared type and the initial value of a global variable. `rebuilt` puts the value
back into its node. -/
def checkGlobalValue (tables : Tables) (name : String) (typeName : Option String) (value : Node)
    (rebuilt : Node → Node) (next : Node → Option Ty → Checked (Node × Tables)) :
    Checked (Node × Tables) :=
  if typeName.isNone && value.isNull then .refuse (rebuilt value, tables) (.bareGlobal name)
  else
    .ensure (resolveTy typeName) (rebuilt value, tables) fun declared =>
    (checkInitial tables.chain declared (withElementTy declared value)).bind
      (fun (value, _) => (rebuilt value, tables)) fun (value, ty) => next value ty

/-- Checks a global variable and declares it. -/
def checkGlobal (tables : Tables) : Node → Checked (Node × Tables)
  | .global name mutable typeName value isList binding =>
    let rebuilt (value : Node) := Node.global name mutable typeName value isList binding
    checkGlobalValue tables name typeName value rebuilt fun value ty =>
    .ensure (tables.declare name ty mutable isList) (rebuilt value, tables)
      fun (binding, tables) =>
    .noted 2 ("global " ++ name ++ ": " ++ Ty.label ty)
      (.global name mutable typeName value isList (some binding), tables)
  | .declaration name typeName value binding =>
    let rebuilt (value : Node) := Node.declaration name typeName value binding
    checkGlobalValue tables name typeName value rebuilt fun value _ =>
    .misshapen (rebuilt value, tables) .incomplete
  | other => .misshapen (other, tables) .incomplete

/-- The signature of a function: a parameter without a type takes anything, and a function without
a result type has no result. -/
def signatureOf (name : String) (parameterTypes : List (Option String))
    (resultType : Option String) : Except AnalysisError Signature := do
  let parameters ← parameterTypes.mapM fun typeName => do
    return (← resolveTy typeName).getD .any
  let result := (← resolveTy resultType).getD .nil
  return { name, javaName := name, parameters, result }

/-- Declares a function. -/
def declareFunction (tables : Tables) : Node → Checked (Node × Tables)
  | .function name parameters parameterTypes resultType body signature =>
    let undeclared :=
      (Node.function name parameters parameterTypes resultType body signature, tables)
    .ensure (signatureOf name parameterTypes resultType) undeclared fun found =>
    .ensure (tables.declareFunction found) undeclared fun tables =>
    .noted 2
      ("function " ++ name ++ "/" ++ toString found.arity ++ " -> " ++ found.result.name)
      (.function name parameters parameterTypes resultType body (some found), tables)
  | other => .misshapen (other, tables) .incomplete

/-- The tables of a function's body: the type of its result and its parameters. -/
def bodyTables (tables : Tables) (signature : Signature) (parameters : List String) :
    Except AnalysisError Tables := do
  let (_, inside) ← tables.enter.declare returnName (some signature.result) false false
  (parameters.zip signature.parameters).foldlM
    (fun inside (name, ty) => do return (← inside.declare name (some ty) true false).2) inside

/-- Checks the body of a function that has been declared. -/
def checkFunction (tables : Tables) : Node → Checked (Node × Tables)
  | .function name parameters parameterTypes resultType body (some signature) =>
    let rebuilt (body : List Node) :=
      Node.function name parameters parameterTypes resultType body (some signature)
    .ensure (bodyTables tables signature parameters) (rebuilt body, tables) fun inside =>
    (checkBlock inside body).map fun (body, inside) => (rebuilt body, tables.resume inside)
  | other => .misshapen (other, tables) .incomplete

/-- Applies a check to several nodes in order. -/
def checkEach (check : Tables → Node → Checked (Node × Tables)) (tables : Tables) :
    List Node → Checked (List Node × Tables)
  | [] => .done ([], tables)
  | node :: rest =>
    (check tables node).bind (fun (node, tables) => (node :: rest, tables)) fun (node, tables) =>
    (checkEach check tables rest).map fun (rest, tables) => (node :: rest, tables)

/-- Checks a whole program. -/
def checkProgram (tables : Tables) : Node → Checked (Node × Tables)
  | .program globals functions =>
    Checked.bind
      (.noted 1
        ("analyze: " ++ toString globals.length ++ " globals, " ++ toString functions.length ++
          " functions") ())
      (fun _ => (.program globals functions, tables)) fun _ =>
    (checkEach checkGlobal tables globals).bind
      (fun (globals, tables) => (.program globals functions, tables)) fun (globals, tables) =>
    (checkEach declareFunction tables functions).bind
      (fun (functions, tables) => (.program globals functions, tables))
      fun (functions, tables) =>
    (checkEach checkFunction tables functions).map fun (functions, tables) =>
      (.program globals functions, tables)
  | other => .misshapen (other, tables) .incomplete

end BlockScript

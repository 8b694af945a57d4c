import BlockScript.Evaluation.World
/-!
# Running programs

Expressions and statements are evaluated on the tree, from left to right. Statements pass on the
local frames with what they defined in them; a statement that ends its function passes on the result
of the function as well, and nothing behind it is executed until the call that it belongs to.
Functions run in a frame of their own directly inside the top frame.

Programs need not end, so evaluation spends one unit of fuel with each step into a part of the
program, and fails in a way of its own when there is none left. With more fuel a finished run stays
the same.

## Main definitions

* `evaluate`, `execute`, `invoke` — expressions, statements and functions
* `runProgram` — a whole program
-/

namespace BlockScript

open Run

/-- The value of an operator on two values. -/
def applyToValues (symbol : String) (left right : Value) : Run Value := do
  let world ← get
  match applySymbol symbol (world.datum left) (world.datum right) with
  | .ok result => return .scalar result
  | .error (.refused e) => refuse e
  | .error .overflow => throw .overflow

/-- The texts of values, divided by commas. -/
def World.textsOf (world : World) (values : List Value) : String :=
  ", ".intercalate (values.map fun value => (world.datum value).text)

/-- The text of a value. -/
def World.textOf (world : World) (value : Value) : String :=
  (world.datum value).text

/-- The frame of a call: the parameters with the arguments as their values. -/
def bindParameters : List String → List Value → DynamicChain → Run DynamicChain
  | parameter :: parameters, argument :: arguments, locals => do
    let locals ← define locals parameter { value := argument, mutable := true }
    bindParameters parameters arguments locals
  | _, _, locals => pure locals

mutual

/-- The value of an expression. -/
def evaluate : Nat → DynamicChain → Node → Run Value
  | 0, _, _ => throw .outOfFuel
  | fuel + 1, locals, node =>
    match node with
    | .literal value _ => pure (.scalar value)
    | .group inner _ => evaluate fuel locals inner
    | .binary symbol left right _ => do
      let first ← evaluate fuel locals left
      if symbol = "&&" then
        if ← requireBoolean first then
          return .scalar (.boolean (← requireBoolean (← evaluate fuel locals right)))
        else
          return .scalar (.boolean false)
      else if symbol = "||" then
        if ← requireBoolean first then
          return .scalar (.boolean true)
        else
          return .scalar (.boolean (← requireBoolean (← evaluate fuel locals right)))
      else
        let second ← evaluate fuel locals right
        applyToValues symbol first second
    | .access name offset _ _ => do
      let slot ← findVariable locals name
      if offset.isNull then
        return slot.value
      else
        let handle ← requireList name slot
        let index ← requireOffset handle (← evaluate fuel locals offset)
        readItem handle index
    | .call name arguments _ _ => do
      let values ← evaluateAll fuel locals arguments
      let routine ← findFunction locals name values.length
      note 3 fun world => "call " ++ name ++ "(" ++ world.textsOf values ++ ")"
      invoke fuel routine values
    | .listLiteral values _ => do
      allocate (← evaluateAll fuel locals values)
    | other => throw (.misshapen (.unexpected .evaluate other.kind?))

/-- The values of several expressions, from left to right. -/
def evaluateAll : Nat → DynamicChain → List Node → Run (List Value)
  | 0, _, _ => throw .outOfFuel
  | _ + 1, _, [] => pure []
  | fuel + 1, locals, node :: rest => do
    let first ← evaluate fuel locals node
    let others ← evaluateAll fuel locals rest
    return first :: others

/-- The result of a function for the given arguments; nil if it ends without a return. -/
def invoke : Nat → Routine → List Value → Run Value
  | 0, _, _ => throw .outOfFuel
  | fuel + 1, routine, arguments =>
    match routine with
    | .print =>
      match arguments with
      | [] => throw .missingArgument
      | argument :: _ => do
        modify fun world =>
          { world with transcript := world.transcript.print (world.textOf argument) }
        return .nil
    | .defined name parameters body => do
      if arguments.length = parameters.length then
        let locals ← bindParameters parameters arguments [{}]
        let (outcome, _) ← executeBlock fuel locals body
        match outcome with
        | some result =>
          note 3 fun world => name ++ " returned " ++ world.textOf result
          return result
        | none => return .nil
      else
        refuse (.wrongArgumentCount name parameters.length arguments.length)

/-- Executes a statement. The outcome is the result of the function if the statement ended it, and
the local frames behind the statement. -/
def execute : Nat → DynamicChain → Node → Run (Option Value × DynamicChain)
  | 0, _, _ => throw .outOfFuel
  | fuel + 1, locals, node =>
    match node with
    | .discard expression => do
      let _ ← evaluate fuel locals expression
      return (none, locals)
    | .declaration name _ value _ => do
      let initial ← if value.isNull then pure .nil else evaluate fuel locals value
      let locals ← define locals name { value := initial, mutable := true }
      note 2 fun world => "declare " ++ name ++ " = " ++ world.textOf initial
      return (none, locals)
    | .assignment receiver value => do
      let result ← evaluate fuel locals value
      match receiver with
      | .access name offset _ _ =>
        let slot ← findVariable locals name
        if offset.isNull then
          if slot.mutable then
            return (none, ← assign locals name result)
          else
            refuse (.immutable name)
        else
          let handle ← requireList name slot
          let index ← requireOffset handle (← evaluate fuel locals offset)
          writeItem handle index result
          return (none, locals)
      | _ => refuse .notAssignable
    | .branch condition thenBody elseBody => do
      let holds ← requireBoolean (← evaluate fuel locals condition)
      note 3 fun _ => "if condition -> " ++ (Scalar.boolean holds).text
      let (outcome, inside) ←
        executeBlock fuel ({} :: locals) (if holds then thenBody else elseBody)
      return (outcome, inside.tail)
    | .switch condition cases => do
      let chosen ← evaluate fuel locals condition
      executeCases fuel locals chosen cases
    | .loop condition body => executeLoop fuel locals condition body
    | .ret value => do
      let result ← evaluate fuel locals value
      return (some result, locals)
    | other => throw (.misshapen (.unexpected .execute other.kind?))

/-- Executes statements in order, up to the first that ends the function. -/
def executeBlock : Nat → DynamicChain → List Node → Run (Option Value × DynamicChain)
  | 0, _, _ => throw .outOfFuel
  | _ + 1, locals, [] => pure (none, locals)
  | fuel + 1, locals, statement :: rest => do
    let (outcome, locals) ← execute fuel locals statement
    match outcome with
    | some result => return (some result, locals)
    | none => executeBlock fuel locals rest

/-- Executes the first case whose value is equal to the one chosen, or that has no value. -/
def executeCases : Nat → DynamicChain → Value → List Node → Run (Option Value × DynamicChain)
  | 0, _, _, _ => throw .outOfFuel
  | _ + 1, locals, _, [] => pure (none, locals)
  | fuel + 1, locals, chosen, node :: rest =>
    match node.value? with
    | none => throw (.misshapen .incomplete)
    | some value => do
      let matched ← if value.isNull then pure true else do
        let found ← evaluate fuel locals value
        let world ← get
        pure ((world.datum found).same (world.datum chosen))
      if matched then
        match node with
        | .case _ body =>
          let (outcome, inside) ← executeBlock fuel ({} :: locals) body
          return (outcome, inside.tail)
        | _ => throw (.misshapen .incomplete)
      else
        executeCases fuel locals chosen rest

/-- Executes the body of a loop as long as the condition holds. -/
def executeLoop : Nat → DynamicChain → Node → List Node → Run (Option Value × DynamicChain)
  | 0, _, _, _ => throw .outOfFuel
  | fuel + 1, locals, condition, body => do
    if ← requireBoolean (← evaluate fuel locals condition) then
      let (outcome, inside) ← executeBlock fuel ({} :: locals) body
      match outcome with
      | some result => return (some result, inside.tail)
      | none => executeLoop fuel inside.tail condition body
    else
      return (none, locals)

end

/-- Evaluates a global variable and defines it in the top frame. -/
def executeGlobal (fuel : Nat) (node : Node) : Run Unit := do
  match node.value? with
  | none => throw (.misshapen .incomplete)
  | some value =>
    let initial ← if value.isNull then pure .nil else evaluate fuel [] value
    match node with
    | .global name mutable _ _ _ _ =>
      let _ ← define [] name { value := initial, mutable }
      note 2 fun world => "global " ++ name ++ " = " ++ world.textOf initial
    | _ => throw (.misshapen .incomplete)

/-- Defines a function in the top frame. -/
def defineFunction (node : Node) : Run Unit := do
  match node with
  | .function name parameters _ _ body _ =>
    let world ← get
    let arity := parameters.length
    let top ← ofScope (world.top.defineFunction name arity (.defined name parameters body))
    set { world with top }
    note 2 fun _ => "define function " ++ name ++ "/" ++ toString arity
  | _ => throw (.misshapen .incomplete)

/-- Calls the function that a name and arity mean at the top level. -/
def callByName (fuel : Nat) (name : String) (arity : Nat) (arguments : List Value) : Run Value := do
  invoke fuel (← findFunction [] name arity) arguments

/-- Runs a program: its global variables in order, its functions, and then `main`, whose result is
the result of the program. -/
def runProgram (fuel : Nat) (node : Node) : Run Value := do
  match node with
  | .program globals functions =>
    note 1 fun _ =>
      "run: " ++ toString globals.length ++ " globals, " ++ toString functions.length ++
        " functions"
    globals.forM (executeGlobal fuel)
    functions.forM defineFunction
    let result ← callByName fuel "main" 0 []
    note 1 fun world => "main returned " ++ world.textOf result
    return result
  | _ => throw (.misshapen .incomplete)

end BlockScript

import BlockScript.Proofs.Scoped.World
/-!
# Running programs on scopes

Expressions and statements are evaluated as in `BlockScript.Evaluation.Interpreter`, but in a scope
of the store: a block opens a scope inside the one it stands in, a call opens one directly inside the
top scope, and definitions and assignments change the store.

## Main definitions

* `Scoped.evaluate`, `Scoped.execute`, `Scoped.invoke` — expressions, statements and functions
-/

namespace BlockScript

namespace Scoped

open BlockScript.Scoped.Run

/-- Defines the parameters of a function in the scope of a call, with the arguments as values. -/
def bindParameters (place : Place) : List String → List Value → Run Unit
  | parameter :: parameters, argument :: arguments => do
    define place parameter { value := argument, mutable := true }
    bindParameters place parameters arguments
  | _, _ => pure ()

mutual

/-- The value of an expression in a scope. -/
def evaluate : Nat → Place → Node → Run Value
  | 0, _, _ => throw .outOfFuel
  | fuel + 1, place, node =>
    match node with
    | .literal value _ => pure (.scalar value)
    | .group inner _ => evaluate fuel place inner
    | .binary symbol left right _ => do
      let first ← evaluate fuel place left
      if symbol = "&&" then
        if ← lift (BlockScript.Run.requireBoolean first) then
          let second ← evaluate fuel place right
          return .scalar (.boolean (← lift (BlockScript.Run.requireBoolean second)))
        else
          return .scalar (.boolean false)
      else if symbol = "||" then
        if ← lift (BlockScript.Run.requireBoolean first) then
          return .scalar (.boolean true)
        else
          let second ← evaluate fuel place right
          return .scalar (.boolean (← lift (BlockScript.Run.requireBoolean second)))
      else
        let second ← evaluate fuel place right
        lift (applyToValues symbol first second)
    | .access name offset _ _ => do
      let slot ← findVariable place name
      if offset.isNull then
        return slot.value
      else
        let handle ← lift (BlockScript.Run.requireList name slot)
        let position ← evaluate fuel place offset
        let index ← lift (BlockScript.Run.requireOffset handle position)
        lift (BlockScript.Run.readItem handle index)
    | .call name arguments _ _ => do
      let values ← evaluateAll fuel place arguments
      let routine ← findFunction place name values.length
      lift (BlockScript.Run.note 3 fun world =>
        "call " ++ name ++ "(" ++ world.textsOf values ++ ")")
      invoke fuel routine values
    | .listLiteral values _ => do
      let items ← evaluateAll fuel place values
      lift (BlockScript.Run.allocate items)
    | other => throw (.misshapen (.unexpected .evaluate other.kind?))

/-- The values of several expressions, from left to right. -/
def evaluateAll : Nat → Place → List Node → Run (List Value)
  | 0, _, _ => throw .outOfFuel
  | _ + 1, _, [] => pure []
  | fuel + 1, place, node :: rest => do
    let first ← evaluate fuel place node
    let others ← evaluateAll fuel place rest
    return first :: others

/-- The result of a function, executed in a scope of its own directly inside the top scope. -/
def invoke : Nat → Routine → List Value → Run Value
  | 0, _, _ => throw .outOfFuel
  | fuel + 1, routine, arguments =>
    match routine with
    | .print =>
      match arguments with
      | [] => throw .missingArgument
      | argument :: _ => do
        lift <| modify fun world =>
          { world with transcript := world.transcript.print (world.textOf argument) }
        return .nil
    | .defined name parameters body => do
      if arguments.length = parameters.length then
        let outcome ← inside none fun place => do
          bindParameters place parameters arguments
          executeBlock fuel place body
        match outcome with
        | some result =>
          lift (BlockScript.Run.note 3 fun world => name ++ " returned " ++ world.textOf result)
          return result
        | none => return .nil
      else
        lift (BlockScript.Run.refuse
          (.wrongArgumentCount name parameters.length arguments.length))

/-- Executes a statement in a scope. The outcome is the result of the function if the statement
ended it. -/
def execute : Nat → Place → Node → Run (Option Value)
  | 0, _, _ => throw .outOfFuel
  | fuel + 1, place, node =>
    match node with
    | .discard expression => do
      let _ ← evaluate fuel place expression
      return none
    | .declaration name _ value _ => do
      let initial ← if value.isNull then pure .nil else evaluate fuel place value
      define place name { value := initial, mutable := true }
      lift (BlockScript.Run.note 2 fun world =>
        "declare " ++ name ++ " = " ++ world.textOf initial)
      return none
    | .assignment receiver value => do
      let result ← evaluate fuel place value
      match receiver with
      | .access name offset _ _ =>
        let slot ← findVariable place name
        if offset.isNull then
          if slot.mutable then
            assign place name result
            return none
          else
            lift (BlockScript.Run.refuse (.immutable name))
        else
          let handle ← lift (BlockScript.Run.requireList name slot)
          let position ← evaluate fuel place offset
          let index ← lift (BlockScript.Run.requireOffset handle position)
          lift (BlockScript.Run.writeItem handle index result)
          return none
      | _ => lift (BlockScript.Run.refuse .notAssignable)
    | .branch condition thenBody elseBody => do
      let chosen ← evaluate fuel place condition
      let holds ← lift (BlockScript.Run.requireBoolean chosen)
      lift (BlockScript.Run.note 3 fun _ => "if condition -> " ++ (Scalar.boolean holds).text)
      inside place fun place => executeBlock fuel place (if holds then thenBody else elseBody)
    | .switch condition cases => do
      let chosen ← evaluate fuel place condition
      executeCases fuel place chosen cases
    | .loop condition body => executeLoop fuel place condition body
    | .ret value => do
      let result ← evaluate fuel place value
      return some result
    | other => throw (.misshapen (.unexpected .execute other.kind?))

/-- Executes statements in order, up to the first that ends the function. -/
def executeBlock : Nat → Place → List Node → Run (Option Value)
  | 0, _, _ => throw .outOfFuel
  | _ + 1, _, [] => pure none
  | fuel + 1, place, statement :: rest => do
    let outcome ← execute fuel place statement
    match outcome with
    | some result => return some result
    | none => executeBlock fuel place rest

/-- Executes the first case whose value is equal to the one chosen, or that has no value. -/
def executeCases : Nat → Place → Value → List Node → Run (Option Value)
  | 0, _, _, _ => throw .outOfFuel
  | _ + 1, _, _, [] => pure none
  | fuel + 1, place, chosen, node :: rest =>
    match node.value? with
    | none => throw (.misshapen .incomplete)
    | some value => do
      let matched ← if value.isNull then pure true else do
        let found ← evaluate fuel place value
        let σ ← get
        pure ((σ.world.datum found).same (σ.world.datum chosen))
      if matched then
        match node with
        | .case _ body => inside place fun place => executeBlock fuel place body
        | _ => throw (.misshapen .incomplete)
      else
        executeCases fuel place chosen rest

/-- Executes the body of a loop as long as the condition holds, each time in a new scope. -/
def executeLoop : Nat → Place → Node → List Node → Run (Option Value)
  | 0, _, _, _ => throw .outOfFuel
  | fuel + 1, place, condition, body => do
    let chosen ← evaluate fuel place condition
    if ← lift (BlockScript.Run.requireBoolean chosen) then
      let outcome ← inside place fun place => executeBlock fuel place body
      match outcome with
      | some result => return some result
      | none => executeLoop fuel place condition body
    else
      return none

end

end Scoped

end BlockScript

import BlockScript.Proofs.Watched.Interpreter
/-!
# Returns as exits

The rules of evaluation once more, with another idea of what ends a function. Statements have no
outcome here: they pass on the local frames and nothing else. A return is thrown, like a failure, and
flies past all statements, cases and loops around it, because none of them catches anything. Only
the call of a function does, and it catches returns only. What is reported is the same as in watched
runs, so that nothing could be evaluated here or there without being seen.

## Main definitions

* `Exiting.Exit` — what is thrown
* `Exiting.evaluate`, `Exiting.execute`, `Exiting.invoke` — expressions, statements and functions
* `Exiting.runProgram` — a whole program
-/

namespace BlockScript

namespace Watched.Exiting

open Watched.Run (perform findVariable findFunction assign report note)

/-- What is thrown: the result of a function, or the reason why a run does not finish. -/
inductive Exit where
  /-- A return with its value. -/
  | returned (value : Value)
  | failed (failure : Failure)

/-- Computations that can be left; what was done before stays. -/
abbrev Run : Type → Type := EStateM Exit World

/-- A computation that has no returns. -/
def lift {α : Type} (x : Watched.Run α) : Run α := fun world =>
  match x world with
  | .ok a after => .ok a after
  | .error failure after => .error (.failed failure) after

/-- Fails as a run does. -/
def fail {α : Type} (failure : Failure) : Run α :=
  throw (.failed failure)

/-- Reports the value of an expression. -/
def evaluating (place : Place) (node : Node) (x : Run Value) : Run Value := do
  let value ← x
  lift (report place (.evaluated node value))
  return value

/-- Goes through a block in a frame of its own. -/
def inside (place : Place) (block : Place → Run Chain) : Run Chain := do
  let entry ← lift (Watched.Run.withEntry pure)
  let locals ← block (place.enter entry)
  return locals.tail

/-- The result of the body of a function: the value of the return that leaves it, or nil if it comes
to its end. -/
def resultOf (name : String) (body : Run Chain) : Run Value :=
  tryCatch
    (do
      let _ ← body
      return .nil)
    fun
      | .returned result => do
        lift (note 3 fun world => name ++ " returned " ++ world.textOf result)
        return result
      | .failed failure => fail failure

mutual

/-- The value of an expression. -/
def evaluate : Nat → Place → Node → Run Value
  | 0, _, _ => fail .outOfFuel
  | fuel + 1, place, node =>
    evaluating place node <|
      match node with
      | .literal value _ => pure (.scalar value)
      | .group inner _ => evaluate fuel place inner
      | .binary symbol left right _ => do
        let first ← evaluate fuel place left
        if symbol = "&&" then
          if ← lift (perform place node (BlockScript.Run.requireBoolean first)) then
            let second ← evaluate fuel place right
            return .scalar (.boolean
              (← lift (perform place node (BlockScript.Run.requireBoolean second))))
          else
            return .scalar (.boolean false)
        else if symbol = "||" then
          if ← lift (perform place node (BlockScript.Run.requireBoolean first)) then
            return .scalar (.boolean true)
          else
            let second ← evaluate fuel place right
            return .scalar (.boolean
              (← lift (perform place node (BlockScript.Run.requireBoolean second))))
        else
          let second ← evaluate fuel place right
          lift (perform place node (applyToValues symbol first second))
      | .access name offset _ _ => do
        let slot ← lift (findVariable place node name)
        if offset.isNull then
          return slot.value
        else
          let handle ← lift (perform place node (BlockScript.Run.requireList name slot.erase))
          let position ← evaluate fuel place offset
          let index ← lift (perform place node (BlockScript.Run.requireOffset handle position))
          lift (perform place node (BlockScript.Run.readItem handle index))
      | .call name arguments _ _ => do
        let values ← evaluateAll fuel place arguments
        let routine ← lift (findFunction place name values.length)
        lift (report place (.invoked node routine))
        lift (note 3 fun world => "call " ++ name ++ "(" ++ world.textsOf values ++ ")")
        invoke fuel place routine values
      | .listLiteral values _ => do
        let items ← evaluateAll fuel place values
        lift (perform place node (BlockScript.Run.allocate items))
      | other => fail (.misshapen (.unexpected .evaluate other.kind?))

/-- The values of several expressions, from left to right. -/
def evaluateAll : Nat → Place → List Node → Run (List Value)
  | 0, _, _ => fail .outOfFuel
  | _ + 1, _, [] => pure []
  | fuel + 1, place, node :: rest => do
    let first ← evaluate fuel place node
    let others ← evaluateAll fuel place rest
    return first :: others

/-- The result of a function that is called with the given arguments. Returns are caught here. -/
def invoke : Nat → Place → Routine → List Value → Run Value
  | 0, _, _, _ => fail .outOfFuel
  | fuel + 1, place, routine, arguments =>
    match routine with
    | .print =>
      match arguments with
      | [] => fail .missingArgument
      | argument :: _ => do
        lift <| perform place .null <| modify fun world =>
          { world with transcript := world.transcript.print (world.textOf argument) }
        return .nil
    | .defined name parameters body _ bindings => do
      if arguments.length = parameters.length then
        let entry ← lift (Watched.Run.withEntry pure)
        let locals ← lift (Watched.bindParameters entry parameters arguments bindings [{}])
        let callee := place.call entry locals
        lift (report callee .changed)
        resultOf name (executeBlock fuel callee body)
      else
        fail (.error (.wrongArgumentCount name parameters.length arguments.length))

/-- Executes a statement, and passes on the local frames behind it. -/
def execute : Nat → Place → Node → Run Chain
  | 0, _, _ => fail .outOfFuel
  | fuel + 1, place, node =>
    match node with
    | .discard expression => do
      let _ ← evaluate fuel place expression
      return place.locals
    | .declaration name _ value binding => do
      let initial ← if value.isNull then pure .nil else evaluate fuel place value
      let entry := place.entries.headD 0
      let locals ← lift (Watched.declare place name
        { value := initial, mutable := true, origin := binding, entry })
      lift (note 2 fun world => "declare " ++ name ++ " = " ++ world.textOf initial)
      return locals
    | .assignment receiver value => do
      let result ← evaluate fuel place value
      match receiver with
      | .access name offset _ _ =>
        let slot ← lift (findVariable place receiver name)
        if offset.isNull then
          if slot.mutable then
            let locals ← lift (assign place.locals name result)
            lift (report { place with locals } .changed)
            return locals
          else
            fail (.error (.immutable name))
        else
          let handle ← lift (perform place node (BlockScript.Run.requireList name slot.erase))
          let position ← evaluate fuel place offset
          let index ← lift (perform place node (BlockScript.Run.requireOffset handle position))
          lift (perform place node (BlockScript.Run.writeItem handle index result))
          lift (report place .changed)
          return place.locals
      | _ => fail (.error .notAssignable)
    | .branch condition thenBody elseBody => do
      let chosen ← evaluate fuel place condition
      let holds ← lift (perform place node (BlockScript.Run.requireBoolean chosen))
      lift (note 3 fun _ => "if condition -> " ++ (Scalar.boolean holds).text)
      inside place fun place => executeBlock fuel place (if holds then thenBody else elseBody)
    | .switch condition cases => do
      let chosen ← evaluate fuel place condition
      executeCases fuel place chosen cases
    | .loop condition body => executeLoop fuel place condition body
    | .ret value => do
      let result ← evaluate fuel place value
      throw (.returned result)
    | other => fail (.misshapen (.unexpected .execute other.kind?))

/-- Executes statements in order. -/
def executeBlock : Nat → Place → List Node → Run Chain
  | 0, _, _ => fail .outOfFuel
  | _ + 1, place, [] => pure place.locals
  | fuel + 1, place, statement :: rest => do
    let locals ← execute fuel place statement
    executeBlock fuel { place with locals } rest

/-- Executes the first case whose value is equal to the one chosen, or that has no value. -/
def executeCases : Nat → Place → Value → List Node → Run Chain
  | 0, _, _, _ => fail .outOfFuel
  | _ + 1, place, _, [] => pure place.locals
  | fuel + 1, place, chosen, node :: rest =>
    match node.value? with
    | none => fail (.misshapen .incomplete)
    | some value => do
      let matched ← if value.isNull then pure true else do
        let found ← evaluate fuel place value
        let world ← get
        pure ((world.erase.datum found).same (world.erase.datum chosen))
      if matched then
        match node with
        | .case _ body => inside place fun place => executeBlock fuel place body
        | _ => fail (.misshapen .incomplete)
      else
        executeCases fuel place chosen rest

/-- Executes the body of a loop as long as the condition holds. -/
def executeLoop : Nat → Place → Node → List Node → Run Chain
  | 0, _, _, _ => fail .outOfFuel
  | fuel + 1, place, condition, body => do
    let chosen ← evaluate fuel place condition
    let node := Node.loop condition body
    if ← lift (perform place node (BlockScript.Run.requireBoolean chosen)) then
      let locals ← inside place fun place => executeBlock fuel place body
      executeLoop fuel { place with locals } condition body
    else
      return place.locals

end

/-- Evaluates a global variable and defines it in the top frame. -/
def executeGlobal (fuel : Nat) (node : Node) : Run Unit := do
  match node.value? with
  | none => fail (.misshapen .incomplete)
  | some value =>
    let initial ← if value.isNull then pure .nil else evaluate fuel .outermost value
    match node with
    | .global name mutable _ _ _ binding =>
      let slot := { value := initial, mutable, origin := binding, entry := 0 }
      let _ ← lift (Watched.declare .outermost name slot)
      lift (note 2 fun world => "global " ++ name ++ " = " ++ world.textOf initial)
    | _ => fail (.misshapen .incomplete)

/-- Runs a program: its global variables in order, its functions, and then `main`, whose result is
the result of the program. -/
def runProgram (fuel : Nat) (bindings : List (List Binding)) (node : Node) : Run Value := do
  match node with
  | .program globals functions =>
    lift (note 1 fun _ =>
      "run: " ++ toString globals.length ++ " globals, " ++ toString functions.length ++
        " functions")
    globals.forM (executeGlobal fuel)
    lift (Watched.defineFunctions functions bindings)
    let routine ← lift (findFunction .outermost "main" 0)
    let result ← invoke fuel .outermost routine []
    lift (note 1 fun world => "main returned " ++ world.textOf result)
    return result
  | _ => fail (.misshapen .incomplete)

end Watched.Exiting

end BlockScript

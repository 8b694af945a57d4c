import BlockScript.Proofs.Watched.World
/-!
# Watched runs

The rules of evaluation once more, for runs that are watched. They differ from those of runs that
are not only in what they pass on and report: variables get the binding of the node that makes them
and the number of the entry they are made in, every expression reports its value, every use of a
variable the variable, every call the function, and every change of a variable or of a list that
there was one.

## Main definitions

* `Watched.evaluate`, `Watched.execute`, `Watched.invoke` — expressions, statements and functions
* `Watched.runProgram` — a whole program, with the bindings of the parameters of its functions

## Main results

* `Watched.evaluate_reports` — no value of an expression is left out
-/

namespace BlockScript

namespace Watched

open BlockScript.Watched.Run

/-- Reports the value of an expression. -/
def evaluating (place : Place) (node : Node) (x : Run Value) : Run Value := do
  let value ← x
  report place (.evaluated node value)
  return value

/-- Makes a variable, and reports the change. -/
def declare (place : Place) (name : String) (slot : Slot) : Run Chain := do
  let locals ← define place.locals name slot
  report { place with locals } .changed
  return locals

/-- Goes through a block in a frame of its own. -/
def inside (place : Place) (block : Place → Run (Option Value × Chain)) :
    Run (Option Value × Chain) :=
  withEntry fun entry => do
    let (outcome, locals) ← block (place.enter entry)
    return (outcome, locals.tail)

/-- The frame of a call: the parameters with the arguments as their values. -/
def bindParameters (entry : Nat) :
    List String → List Value → List Binding → Chain → Run Chain
  | parameter :: parameters, argument :: arguments, bindings, locals => do
    let slot := { value := argument, mutable := true, origin := bindings.head?, entry }
    let locals ← define locals parameter slot
    bindParameters entry parameters arguments bindings.tail locals
  | _, _, _, locals => pure locals

mutual

/-- The value of an expression. -/
def evaluate : Nat → Place → Node → Run Value
  | 0, _, _ => throw .outOfFuel
  | fuel + 1, place, node =>
    evaluating place node <|
      match node with
      | .literal value _ => pure (.scalar value)
      | .group inner _ => evaluate fuel place inner
      | .binary symbol left right _ => do
        let first ← evaluate fuel place left
        if symbol = "&&" then
          if ← perform place node (BlockScript.Run.requireBoolean first) then
            let second ← evaluate fuel place right
            return .scalar (.boolean
              (← perform place node (BlockScript.Run.requireBoolean second)))
          else
            return .scalar (.boolean false)
        else if symbol = "||" then
          if ← perform place node (BlockScript.Run.requireBoolean first) then
            return .scalar (.boolean true)
          else
            let second ← evaluate fuel place right
            return .scalar (.boolean
              (← perform place node (BlockScript.Run.requireBoolean second)))
        else
          let second ← evaluate fuel place right
          perform place node (applyToValues symbol first second)
      | .access name offset _ _ => do
        let slot ← findVariable place node name
        if offset.isNull then
          return slot.value
        else
          let handle ← perform place node (BlockScript.Run.requireList name slot.erase)
          let position ← evaluate fuel place offset
          let index ← perform place node (BlockScript.Run.requireOffset handle position)
          perform place node (BlockScript.Run.readItem handle index)
      | .call name arguments _ _ => do
        let values ← evaluateAll fuel place arguments
        let routine ← findFunction place name values.length
        report place (.invoked node routine)
        note 3 fun world => "call " ++ name ++ "(" ++ world.textsOf values ++ ")"
        invoke fuel place routine values
      | .listLiteral values _ => do
        let items ← evaluateAll fuel place values
        perform place node (BlockScript.Run.allocate items)
      | other => throw (.misshapen (.unexpected .evaluate other.kind?))

/-- The values of several expressions, from left to right. -/
def evaluateAll : Nat → Place → List Node → Run (List Value)
  | 0, _, _ => throw .outOfFuel
  | _ + 1, _, [] => pure []
  | fuel + 1, place, node :: rest => do
    let first ← evaluate fuel place node
    let others ← evaluateAll fuel place rest
    return first :: others

/-- The result of a function that is called with the given arguments. -/
def invoke : Nat → Place → Routine → List Value → Run Value
  | 0, _, _, _ => throw .outOfFuel
  | fuel + 1, place, routine, arguments =>
    match routine with
    | .print =>
      match arguments with
      | [] => throw .missingArgument
      | argument :: _ => do
        perform place .null <| modify fun world =>
          { world with transcript := world.transcript.print (world.textOf argument) }
        return .nil
    | .defined name parameters body _ bindings => do
      if arguments.length = parameters.length then
        withEntry fun entry => do
          let locals ← bindParameters entry parameters arguments bindings [{}]
          let callee := place.call entry locals
          report callee .changed
          let (outcome, _) ← executeBlock fuel callee body
          match outcome with
          | some result =>
            note 3 fun world => name ++ " returned " ++ world.textOf result
            return result
          | none => return .nil
      else
        refuse (.wrongArgumentCount name parameters.length arguments.length)

/-- Executes a statement. The outcome is the result of the function if the statement ended it, and
the local frames behind the statement. -/
def execute : Nat → Place → Node → Run (Option Value × Chain)
  | 0, _, _ => throw .outOfFuel
  | fuel + 1, place, node =>
    match node with
    | .discard expression => do
      let _ ← evaluate fuel place expression
      return (none, place.locals)
    | .declaration name _ value binding => do
      let initial ← if value.isNull then pure .nil else evaluate fuel place value
      let entry := place.entries.headD 0
      let locals ← declare place name
        { value := initial, mutable := true, origin := binding, entry }
      note 2 fun world => "declare " ++ name ++ " = " ++ world.textOf initial
      return (none, locals)
    | .assignment receiver value => do
      let result ← evaluate fuel place value
      match receiver with
      | .access name offset _ _ =>
        let slot ← findVariable place receiver name
        if offset.isNull then
          if slot.mutable then
            let locals ← assign place.locals name result
            report { place with locals } .changed
            return (none, locals)
          else
            refuse (.immutable name)
        else
          let handle ← perform place node (BlockScript.Run.requireList name slot.erase)
          let position ← evaluate fuel place offset
          let index ← perform place node (BlockScript.Run.requireOffset handle position)
          perform place node (BlockScript.Run.writeItem handle index result)
          report place .changed
          return (none, place.locals)
      | _ => refuse .notAssignable
    | .branch condition thenBody elseBody => do
      let chosen ← evaluate fuel place condition
      let holds ← perform place node (BlockScript.Run.requireBoolean chosen)
      note 3 fun _ => "if condition -> " ++ (Scalar.boolean holds).text
      inside place fun place => executeBlock fuel place (if holds then thenBody else elseBody)
    | .switch condition cases => do
      let chosen ← evaluate fuel place condition
      executeCases fuel place chosen cases
    | .loop condition body => executeLoop fuel place condition body
    | .ret value => do
      let result ← evaluate fuel place value
      return (some result, place.locals)
    | other => throw (.misshapen (.unexpected .execute other.kind?))

/-- Executes statements in order, up to the first that ends the function. -/
def executeBlock : Nat → Place → List Node → Run (Option Value × Chain)
  | 0, _, _ => throw .outOfFuel
  | _ + 1, place, [] => pure (none, place.locals)
  | fuel + 1, place, statement :: rest => do
    let (outcome, locals) ← execute fuel place statement
    match outcome with
    | some result => return (some result, locals)
    | none => executeBlock fuel { place with locals } rest

/-- Executes the first case whose value is equal to the one chosen, or that has no value. -/
def executeCases : Nat → Place → Value → List Node → Run (Option Value × Chain)
  | 0, _, _, _ => throw .outOfFuel
  | _ + 1, place, _, [] => pure (none, place.locals)
  | fuel + 1, place, chosen, node :: rest =>
    match node.value? with
    | none => throw (.misshapen .incomplete)
    | some value => do
      let matched ← if value.isNull then pure true else do
        let found ← evaluate fuel place value
        let world ← get
        pure ((world.erase.datum found).same (world.erase.datum chosen))
      if matched then
        match node with
        | .case _ body => inside place fun place => executeBlock fuel place body
        | _ => throw (.misshapen .incomplete)
      else
        executeCases fuel place chosen rest

/-- Executes the body of a loop as long as the condition holds. -/
def executeLoop : Nat → Place → Node → List Node → Run (Option Value × Chain)
  | 0, _, _, _ => throw .outOfFuel
  | fuel + 1, place, condition, body => do
    let chosen ← evaluate fuel place condition
    let node := Node.loop condition body
    if ← perform place node (BlockScript.Run.requireBoolean chosen) then
      let (outcome, locals) ← inside place fun place => executeBlock fuel place body
      match outcome with
      | some result => return (some result, locals)
      | none => executeLoop fuel { place with locals } condition body
    else
      return (none, place.locals)

end

/-- The value of an expression is reported, with the variables that are there when it is known. -/
theorem evaluate_reports {fuel : Nat} {place : Place} {node : Node} {value : Value}
    {world after : World} (h : evaluate fuel place node world = .ok value after) :
    after.points.head? =
      some { event := .evaluated node value, place, top := after.top, heap := after.heap } := by
  cases fuel with
  | zero => cases h
  | succ fuel =>
    unfold evaluate at h
    rw [evaluating, bind_apply] at h
    split at h
    · cases h
      rfl
    · cases h

/-- Evaluates a global variable and defines it in the top frame. -/
def executeGlobal (fuel : Nat) (node : Node) : Run Unit := do
  match node.value? with
  | none => throw (.misshapen .incomplete)
  | some value =>
    let initial ← if value.isNull then pure .nil else evaluate fuel .outermost value
    match node with
    | .global name mutable _ _ _ binding =>
      let slot := { value := initial, mutable, origin := binding, entry := 0 }
      let _ ← declare .outermost name slot
      note 2 fun world => "global " ++ name ++ " = " ++ world.textOf initial
    | _ => throw (.misshapen .incomplete)

/-- Defines a function in the top frame, with the bindings of its parameters. -/
def defineFunction (node : Node) (bindings : List Binding) : Run Unit := do
  match node with
  | .function name parameters _ _ body signature =>
    let world ← get
    let arity := parameters.length
    let routine := Routine.defined name parameters body signature bindings
    let top ← ofScope (world.top.defineFunction name arity routine)
    set { world with top }
    note 2 fun _ => "define function " ++ name ++ "/" ++ toString arity
  | _ => throw (.misshapen .incomplete)

/-- Defines functions in order. -/
def defineFunctions : List Node → List (List Binding) → Run Unit
  | [], _ => pure ()
  | node :: rest, bindings => do
    defineFunction node (bindings.headD [])
    defineFunctions rest bindings.tail

/-- Calls the function that a name and arity mean at the top level. -/
def callByName (fuel : Nat) (name : String) (arity : Nat) (arguments : List Value) : Run Value := do
  invoke fuel .outermost (← findFunction .outermost name arity) arguments

/-- Runs a program: its global variables in order, its functions, and then `main`, whose result is
the result of the program. -/
def runProgram (fuel : Nat) (bindings : List (List Binding)) (node : Node) : Run Value := do
  match node with
  | .program globals functions =>
    note 1 fun _ =>
      "run: " ++ toString globals.length ++ " globals, " ++ toString functions.length ++
        " functions"
    globals.forM (executeGlobal fuel)
    defineFunctions functions bindings
    let result ← callByName fuel "main" 0 []
    note 1 fun world => "main returned " ++ world.textOf result
    return result
  | _ => throw (.misshapen .incomplete)

end Watched

end BlockScript

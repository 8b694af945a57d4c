import BlockScript.Evaluation.Operation
import BlockScript.Node.ShapeError
import BlockScript.Trace
/-!
# The state of a run

Lists are shared: every variable that holds a list holds a handle, and an element assigned through
one of them is seen through all. So a run computes with values, which are scalars or handles into a
heap of lists, and a datum is what a value shows at some moment.

A run also has the top frame, with the global variables and the functions, and a transcript. Frames
of blocks and calls are not part of the state: they cannot outlive what opened them, and are passed
along as a chain of local frames. At the top level there are none, and the top frame takes their
place.

## Main definitions

* `Value`, `Slot`, `Routine` — what variables hold, and what functions are
* `World` — the state
* `Failure` — why a run does not finish
* `Run` — computations that change the state and can fail; what was done before a failure stays
-/

namespace BlockScript

/-- What a variable can hold: a scalar or a handle of a list. -/
inductive Value where
  | scalar (value : Scalar)
  | list (handle : Nat)
  deriving DecidableEq, Repr, Inhabited

namespace Value

/-- The value that stands for no value. -/
def nil : Value :=
  .scalar .nil

/-- The kind of a value. -/
def kind : Value → Kind
  | scalar value => value.kind
  | list _ => .list

end Value

/-- A variable of a run. -/
structure Slot where
  /-- What the variable holds. -/
  value : Value
  /-- Whether assignments are allowed. -/
  mutable : Bool
  deriving DecidableEq, Repr, Inhabited

/-- A function of a run. -/
inductive Routine where
  /-- The function that writes its argument on a line of its own. -/
  | print
  /-- A function of the program. -/
  | defined (name : String) (parameters : List String) (body : List Node)
  deriving Repr, Inhabited

/-- One table of variables and functions. -/
abbrev DynamicFrame : Type := Frame Slot Routine

/-- Nested tables of variables and functions. -/
abbrev DynamicChain : Type := Chain Slot Routine

/-- The state of a run. -/
structure World where
  /-- The global variables and the functions of the program. -/
  top : DynamicFrame
  /-- The lists by handle. -/
  heap : Array (List Value)
  /-- What was printed and noted. -/
  transcript : Transcript
  deriving Repr, Inhabited

namespace World

/-- The frame around every program. -/
def builtins : DynamicFrame :=
  builtinFrame .print

/-- The state before anything was run. -/
def initial (verbosity : Int) : World :=
  { top := {}, heap := #[], transcript := { verbosity } }

/-- The frames that are there at the top level. -/
def outerChain (world : World) : DynamicChain :=
  [world.top, builtins]

/-- The items of a list. -/
def items (world : World) (handle : Nat) : List Value :=
  world.heap[handle]?.getD []

/-- What a value shows, looking at most `depth` lists deep. -/
def datumBounded (world : World) : Nat → Value → Datum
  | _, .scalar value => .scalar value
  | 0, .list _ => .list []
  | depth + 1, .list handle => .list ((world.items handle).map (datumBounded world depth))

/-- What a value shows. Lists that do not contain themselves are nested no deeper than there are
lists. -/
def datum (world : World) (value : Value) : Datum :=
  world.datumBounded world.heap.size value

theorem datum_scalar (world : World) (value : Scalar) :
    world.datum (.scalar value) = .scalar value := by
  rw [datum, datumBounded]

mutual

/-- The state with new lists for a datum, and the value that shows it. -/
def store (world : World) : Datum → Value × World
  | .scalar value => (.scalar value, world)
  | .list items =>
    let (values, world) := storeAll world items
    (.list world.heap.size, { world with heap := world.heap.push values })

/-- The state with new lists for several data, and the values that show them. -/
def storeAll (world : World) : List Datum → List Value × World
  | [] => ([], world)
  | item :: rest =>
    let (value, world) := store world item
    let (values, world) := storeAll world rest
    (value :: values, world)

end

end World

/-- Why a run does not finish. -/
inductive Failure where
  /-- The program does something that is not allowed. -/
  | error (error : EvaluationError)
  /-- The tree cannot be walked. -/
  | misshapen (error : ShapeError)
  /-- A result is a decimal that is too great. -/
  | overflow
  /-- A built-in function was called without its argument. -/
  | missingArgument
  /-- The fuel is used up; nothing is known about the program. -/
  | outOfFuel
  deriving DecidableEq, Repr

/-- Computations that change the state and can fail; what was done before a failure stays. -/
abbrev Run : Type → Type := EStateM Failure World

namespace Run

/-- Fails with an error of the program. -/
def refuse {α : Type} (error : EvaluationError) : Run α :=
  throw (.error error)

/-- The result of a look-up. -/
def ofScope {α : Type} : Except ScopeError α → Run α
  | .ok result => pure result
  | .error e => refuse (.scope e)

/-- Takes a note; its text is made only if it is kept. -/
def note (level : Int) (text : World → String) : Run Unit :=
  modify fun world =>
    { world with transcript := world.transcript.note level fun _ => text world }

/-- The frames that a place with the given local frames sees. -/
def chain (locals : DynamicChain) : Run DynamicChain := do
  return locals ++ (← get).outerChain

/-- The variable that a name means. -/
def findVariable (locals : DynamicChain) (name : String) : Run Slot := do
  ofScope ((← chain locals).lookupVariable name)

/-- The function that a name means. -/
def findFunction (locals : DynamicChain) (name : String) (arity : Nat) : Run Routine := do
  ofScope ((← chain locals).lookupFunction name arity)

/-- Defines a variable in the innermost frame. -/
def define (locals : DynamicChain) (name : String) (slot : Slot) : Run DynamicChain := do
  match locals with
  | inner :: outer => return (← ofScope (inner.defineVariable name slot)) :: outer
  | [] =>
    let world ← get
    let top ← ofScope (world.top.defineVariable name slot)
    set { world with top }
    return []

/-- Puts a value into the variable that a name means. -/
def assign (locals : DynamicChain) (name : String) (value : Value) : Run DynamicChain := do
  let change (slot : Slot) : Slot := { slot with value }
  if (locals.findVariable? name).isSome then
    return locals.updateVariable name change
  else
    modify fun world => { world with top := world.top.updateVariable name change }
    return locals

/-- The truth value that a condition must be. -/
def requireBoolean : Value → Run Bool
  | .scalar (.boolean value) => pure value
  | other => refuse (.notBoolean other.kind)

/-- The handle that the variable of a name must hold if it is used as a list. -/
def requireList (name : String) (slot : Slot) : Run Nat :=
  match slot.value with
  | .list handle => pure handle
  | .scalar _ => refuse (.notList name)

/-- The index that an offset into a list denotes. -/
def requireOffset (handle : Nat) : Value → Run Nat
  | .scalar (.integer offset) => do
    if 0 ≤ offset ∧ offset < ((← get).items handle).length then
      return offset.toNat
    else
      refuse (.offsetOutOfRange offset)
  | other => refuse (.offsetNotInteger other.kind)

/-- The item of a list at an index that is in range. -/
def readItem (handle index : Nat) : Run Value := do
  return (((← get).items handle)[index]?).getD .nil

/-- Puts a value into a list at an index that is in range. -/
def writeItem (handle index : Nat) (value : Value) : Run Unit :=
  modify fun world =>
    { world with heap := world.heap.modify handle fun items => items.set index value }

/-- A new list with the given items. -/
def allocate (items : List Value) : Run Value := do
  let world ← get
  set { world with heap := world.heap.push items }
  return .list world.heap.size

end Run

end BlockScript

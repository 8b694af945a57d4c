import BlockScript.Evaluation.Interpreter
/-!
# The state of a watched run

A watched run keeps for every variable which binding made it, and during which entry into a block
or a function; entries are numbered in order. It also keeps what happened: each value of an
expression, each use of a variable, each call and each value that was refused, together with all
the variables that were there at that moment. Nothing of this has an influence on the run.

## Main definitions

* `Watched.Slot`, `Watched.Routine` — variables and functions with what made them
* `Watched.Place` — the frames of the functions that are being executed
* `Watched.Event`, `Watched.Point` — what happened, and the variables at that moment
* `Watched.World`, `Watched.Run` — the state, and computations on it
-/

namespace BlockScript

/-- The frame with other entries in place of its own. -/
def Frame.map {V W F G : Type} (f : V → W) (g : F → G) (frame : Frame V F) : Frame W G :=
  { vars := frame.vars.map fun entry => (entry.1, f entry.2)
    funs := frame.funs.map fun entry => (entry.1, g entry.2) }

namespace Watched

/-- A variable of a run. -/
structure Slot where
  /-- What the variable holds. -/
  value : Value
  /-- Whether assignments are allowed. -/
  mutable : Bool
  /-- The binding of the global variable, the parameter or the declaration that made it. -/
  origin : Option Binding
  /-- The number of the entry that it was made in; global variables have zero. -/
  entry : Nat

/-- A function of a run. -/
inductive Routine where
  | print
  /-- A function of the program, with its signature and the bindings of its parameters. -/
  | defined (name : String) (parameters : List String) (body : List Node)
      (signature : Option Signature) (bindings : List Binding)

/-- One table of variables and functions. -/
abbrev Frame : Type := BlockScript.Frame Slot Routine

/-- Nested tables of variables and functions. -/
abbrev Chain : Type := BlockScript.Chain Slot Routine

namespace Slot

/-- The variable as runs know it that are not watched. -/
def erase (slot : Slot) : BlockScript.Slot :=
  { value := slot.value, mutable := slot.mutable }

end Slot

namespace Routine

/-- The function as runs know it that are not watched. -/
def erase : Routine → BlockScript.Routine
  | print => .print
  | defined name parameters body _ _ => .defined name parameters body

end Routine

/-- The frame as runs know it that are not watched. -/
def Frame.erase (frame : Frame) : DynamicFrame :=
  frame.map Slot.erase Routine.erase

/-- The frames as runs know them that are not watched. -/
def Chain.erase (chain : Chain) : DynamicChain :=
  chain.map Frame.erase

/-- What can be seen of a run besides the top frame. -/
structure Place where
  /-- The frames of the function that is being executed, the innermost first. -/
  locals : Chain
  /-- The numbers of the entries that opened these frames. -/
  entries : List Nat
  /-- The frames of the functions that wait for a call to end, the latest first. -/
  callers : List Chain

namespace Place

/-- The place where the global variables are evaluated. -/
def outermost : Place :=
  { locals := [], entries := [], callers := [] }

/-- The place at the beginning of a block. -/
def enter (place : Place) (entry : Nat) : Place :=
  { place with locals := {} :: place.locals, entries := entry :: place.entries }

/-- The place at the beginning of a function called from here. -/
def call (place : Place) (entry : Nat) (locals : Chain) : Place :=
  { locals, entries := [entry], callers := place.locals :: place.callers }

end Place

/-- What happens in a run. -/
inductive Event where
  /-- An expression got a value. -/
  | evaluated (node : Node) (value : Value)
  /-- A use of a variable found the variable. -/
  | resolved (node : Node) (slot : Slot)
  /-- A call found the function. -/
  | invoked (node : Node) (routine : Routine)
  /-- A value was refused by an expression or statement. -/
  | refused (node : Node) (failure : Failure)
  /-- Variables were made or changed. -/
  | changed

/-- Something that happened, with the variables and lists that were there at that moment. -/
structure Point where
  /-- What happened. -/
  event : Event
  /-- The local variables. -/
  place : Place
  /-- The global variables. -/
  top : Frame
  /-- The lists by handle. -/
  heap : Array (List Value)

/-- The state of a watched run. -/
structure World where
  /-- The global variables and the functions of the program. -/
  top : Frame
  /-- The lists by handle. -/
  heap : Array (List Value)
  /-- What was printed and noted. -/
  transcript : Transcript
  /-- The number of the next entry. -/
  next : Nat
  /-- What happened so far, the latest first. -/
  points : List Point

namespace World

/-- The frame around every program. -/
def builtins : Frame :=
  builtinFrame .print

/-- The state before anything was run, with what was noted before. -/
def initial (transcript : Transcript) : World :=
  { top := {}, heap := #[], transcript, next := 1, points := [] }

/-- The frames that are there at the top level. -/
def outerChain (world : World) : Chain :=
  [world.top, builtins]

/-- The state as runs know it that are not watched. -/
def erase (world : World) : BlockScript.World :=
  { top := world.top.erase, heap := world.heap, transcript := world.transcript }

/-- The state with the lists and the output of another one. -/
def keep (world : World) (after : BlockScript.World) : World :=
  { world with heap := after.heap, transcript := after.transcript }

/-- The state after something happened. -/
def see (world : World) (place : Place) (event : Event) : World :=
  { world with
    points := { event, place, top := world.top, heap := world.heap } :: world.points }

end World

/-- Computations that change the state and can fail; what was done before a failure stays. -/
abbrev Run : Type → Type := EStateM Failure World

namespace Run

theorem bind_apply {α β : Type} (x : Run α) (next : α → Run β) (world : World) :
    (x >>= next) world =
      match x world with
      | .ok a after => next a after
      | .error failure after => .error failure after := by
  simp only [Bind.bind, EStateM.bind]
  cases x world <;> rfl

theorem bind_apply_eq_ok_iff {α β : Type} {x : Run α} {next : α → Run β} {world after : World}
    {b : β} :
    (x >>= next) world = .ok b after ↔
      ∃ a middle, x world = .ok a middle ∧ next a middle = .ok b after := by
  rw [bind_apply]
  cases x world <;> simp [and_assoc]

theorem get_bind_apply {α : Type} (next : World → Run α) (world : World) :
    (get >>= next) world = next world world :=
  rfl

/-- Adds something to what happened. -/
def report (place : Place) (event : Event) : Run Unit :=
  modify fun world => world.see place event

/-- Fails with an error of the program. -/
def refuse {α : Type} (error : EvaluationError) : Run α :=
  throw (.error error)

/-- The result of a look-up. -/
def ofScope {α : Type} : Except ScopeError α → Run α
  | .ok result => pure result
  | .error e => refuse (.scope e)

/-- A computation that leaves the frames alone, carried out for a node. -/
def perform {α : Type} (place : Place) (node : Node) (x : BlockScript.Run α) : Run α :=
  fun world =>
    match x world.erase with
    | .ok a after => .ok a (world.keep after)
    | .error failure after =>
      .error failure ((world.keep after).see place (.refused node failure))

/-- Takes a note; its text is made only if it is kept. -/
def note (level : Int) (text : BlockScript.World → String) : Run Unit :=
  modify fun world =>
    { world with transcript := world.transcript.note level fun _ => text world.erase }

/-- Goes on with the number of a new entry. -/
def withEntry {α : Type} (next : Nat → Run α) : Run α := do
  let world ← get
  set { world with next := world.next + 1 }
  next world.next

/-- The variable that a use of it means. -/
def findVariable (place : Place) (node : Node) (name : String) : Run Slot := do
  let slot ← ofScope (Chain.lookupVariable (place.locals ++ (← get).outerChain) name)
  report place (.resolved node slot)
  return slot

/-- The function that a name and arity mean. -/
def findFunction (place : Place) (name : String) (arity : Nat) : Run Routine := do
  ofScope (Chain.lookupFunction (place.locals ++ (← get).outerChain) name arity)

/-- Defines a variable in the innermost frame. -/
def define (locals : Chain) (name : String) (slot : Slot) : Run Chain := do
  match locals with
  | inner :: outer => return (← ofScope (inner.defineVariable name slot)) :: outer
  | [] =>
    let world ← get
    let top ← ofScope (world.top.defineVariable name slot)
    set { world with top }
    return []

/-- Puts a value into the variable that a name means. -/
def assign (locals : Chain) (name : String) (value : Value) : Run Chain := do
  let change (slot : Slot) : Slot := { slot with value }
  if (Chain.findVariable? locals name).isSome then
    return Chain.updateVariable name change locals
  else
    modify fun world => { world with top := world.top.updateVariable name change }
    return locals

end Run

end Watched

end BlockScript

import BlockScript.Analysis.Program
import BlockScript.Error
import BlockScript.Evaluation.Interpreter
import BlockScript.Node.Parser
/-!
# Sessions

A session keeps a current program, the static tables of its top level and the state of its run. It
can be analyzed, run and emitted, and single expressions and statements can be checked and executed
at the top level; every step works on what the steps before it have left. A step that fails keeps
what it had done: the annotations and definitions of an analysis, the definitions, assignments and
output of a run.

The static tables and the state of the run do not know of each other. The current program is what
they share, and running it does not change it.

## Main definitions

* `Session` — the state of a session
* `Session.Step` — steps, which can fail
* `Session.analyze`, `Session.run`, `Session.emit` — steps on the current program
* `Session.evaluate`, `Session.execute`, `Session.call`, `Session.typeOf`, `Session.check` — steps
  at the top level
-/

namespace BlockScript

/-- The state of a session. -/
structure Session where
  /-- The static tables of the top level. -/
  tables : Tables
  /-- The state of the run. -/
  world : World
  /-- The current program, with the annotations that it got. -/
  program : Node
  deriving Repr, Inhabited

namespace Session

/-- A session at its beginning, with an empty program. -/
def initial (verbosity : Int) : Session :=
  { tables := .initial, world := .initial verbosity, program := .program [] [] }

/-- The session with another current program. -/
def load (session : Session) (program : Node) : Session :=
  { session with program }

/-- What was printed and noted so far. -/
def events (session : Session) : List Event :=
  session.world.transcript.events

/-- The session with an empty transcript. -/
def clearEvents (session : Session) : Session :=
  { session with
    world := { session.world with
      transcript := { session.world.transcript with latestFirst := [] } } }

/-- Steps of a session; what was done before a failure stays. -/
abbrev Step : Type → Type := EStateM ToolError Session

namespace Step

/-- Carries a computation out on the state of the run. -/
def ofRun {α : Type} (x : Run α) : Step α := fun session =>
  match x session.world with
  | .ok result world => .ok result { session with world }
  | .error failure world => .error (.ofFailure failure) { session with world }

/-- The datum that a computation on the state of the run results in. -/
def ofRunDatum (x : Run Value) : Step Datum := ofRun do
  let value ← x
  return (← get).datum value

/-- Keeps the notes of a check. -/
def keepNotes {α : Type} (checked : Checked α) : Step Unit :=
  modify fun session =>
    { session with
      world := { session.world with
        transcript := session.world.transcript.notes checked.notes } }

/-- Fails if a check did. -/
def throwFault {α : Type} (checked : Checked α) : Step Unit :=
  match checked.fault with
  | some fault => throw (.ofFault fault)
  | none => pure ()

end Step

/-- Checks the current program, which gets the annotations. -/
def analyze : Step Unit := do
  let session ← get
  let checked := checkProgram session.tables session.program
  Step.keepNotes checked
  modify fun session =>
    { session with program := checked.result.1, tables := checked.result.2 }
  Step.throwFault checked

/-- Runs the current program. -/
def run (fuel : Nat) : Step Datum := do
  let session ← get
  Step.ofRunDatum (runProgram fuel session.program)

/-- The Java form of the current program. -/
def emit : Step String := do
  match emitProgram (← get).program with
  | .ok program => return program.text
  | .error error => throw (.ofEmission error)

/-- The value of an expression at the top level. -/
def evaluate (fuel : Nat) (expression : Node) : Step Datum :=
  Step.ofRunDatum (BlockScript.evaluate fuel [] expression)

/-- Executes a statement at the top level; the outcome is the value that it returned, if it did. -/
def execute (fuel : Nat) (statement : Node) : Step (Option Datum) := Step.ofRun do
  let (outcome, _) ← BlockScript.execute fuel [] statement
  let world ← get
  return outcome.map world.datum

/-- Calls the function that a name and arity mean at the top level. -/
def call (fuel : Nat) (name : String) (arity : Nat) (arguments : List Datum) : Step Datum :=
  Step.ofRunDatum do
    let routine ← Run.findFunction [] name arity
    let (values, world) := (← get).storeAll arguments
    set world
    invoke fuel routine values

/-- The static type of an expression at the top level. -/
def typeOf (expression : Node) : Step (Option Ty) := do
  let session ← get
  let checked := checkExpression session.tables.chain expression
  Step.keepNotes checked
  Step.throwFault checked
  return checked.result.type?

/-- Checks a statement at the top level. -/
def check (statement : Node) : Step Unit := do
  let session ← get
  let checked := checkStatement session.tables statement
  Step.keepNotes checked
  modify fun session => { session with tables := checked.result.2 }
  Step.throwFault checked

end Session

end BlockScript

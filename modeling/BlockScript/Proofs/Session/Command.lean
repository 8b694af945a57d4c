import BlockScript.Node.Json
import BlockScript.Proofs.Scoped.Session
/-!
# Sessions as rows of commands

A session is carried on by commands, some of which come with a text that may turn out not to be
readable. Each command is answered, with a value or an error, and with the output that belongs to
it. Commands that look at the program before it runs stand on the static side, those that run
something on the dynamic side; a program is loaded for both.

## Main definitions

* `Session.Command`, `Session.Command.step` — what can be asked of a session
* `Session.perform` — a command, with its answer and the session behind it
* `Session.records` — a row of commands

## Main results

* `Session.records_filter` — commands that can be left out without anybody noticing
-/

namespace BlockScript

namespace Session

/-- What is said about a step that did not fail. -/
inductive Answer where
  /-- It is done. -/
  | done
  /-- A program with so many global variables and functions is there. -/
  | loaded (globals functions : Nat)
  /-- The text of a Java class. -/
  | text (text : String)
  /-- A value. -/
  | datum (datum : Datum)
  /-- The value that a statement returned, if it did. -/
  | outcome (outcome : Option Datum)
  /-- The type of an expression. -/
  | type (type : Option Ty)

/-- What is said about a program that was loaded. -/
def Answer.ofProgram : Node → Answer
  | .program globals functions => loaded globals.length functions.length
  | _ => done

/-- Carries an action out. -/
def Action.step : Action → Step Answer
  | .load program => do
    modify (·.load program)
    return .ofProgram program
  | .clearEvents => do
    modify Session.clearEvents
    return .done
  | .analyze => do
    Session.analyze
    return .done
  | .run fuel => do
    return .datum (← Session.run fuel)
  | .emit => do
    return .text (← Session.emit)
  | .evaluate fuel expression => do
    return .datum (← Session.evaluate fuel expression)
  | .execute fuel statement => do
    return .outcome (← Session.execute fuel statement)
  | .call fuel name arity arguments => do
    return .datum (← Session.call fuel name arity arguments)
  | .typeOf expression => do
    return .type (← Session.typeOf expression)
  | .check statement => do
    Session.check statement
    return .done

/-- What can be asked of a session. -/
inductive Command where
  /-- Takes the program of a source text. -/
  | load (source : String)
  /-- Takes a program that is given as a tree. -/
  | loadTree (tree : Json)
  /-- Checks the program. -/
  | analyze
  /-- Finds the type of the expression of a source text. -/
  | typeOf (source : String)
  /-- Checks the statement of a source text. -/
  | check (source : String)
  /-- Makes the Java class of the program. -/
  | emit
  /-- Runs the program. -/
  | run (fuel : Nat)
  /-- Evaluates the expression of a source text. -/
  | evaluate (fuel : Nat) (source : String)
  /-- Executes the statement of a source text. -/
  | execute (fuel : Nat) (source : String)
  /-- Calls a function. -/
  | call (fuel : Nat) (name : String) (arity : Nat) (arguments : List Datum)

namespace Command

/-- The action that is asked for, if the command can be read. -/
def read : Command → Except ToolError Action
  | load source => ((parseProgram source).mapError .source).map .load
  | loadTree tree => ((Node.ofJson tree).mapError .format).map .load
  | analyze => .ok .analyze
  | typeOf source => ((parseExpression source).mapError .source).map fun found => .typeOf found.1
  | check source => ((parseStatement source).mapError .source).map fun found => .check found.1
  | emit => .ok .emit
  | run fuel => .ok (.run fuel)
  | evaluate fuel source =>
    ((parseExpression source).mapError .source).map fun found => .evaluate fuel found.1
  | execute fuel source =>
    ((parseStatement source).mapError .source).map fun found => .execute fuel found.1
  | call fuel name arity arguments => .ok (.call fuel name arity arguments)

/-- Carries a command out. -/
def step (command : Command) : Step Answer :=
  match command.read with
  | .ok action => action.step
  | .error e => throw e

/-- Whether a command looks at programs before they run. -/
def isStatic : Command → Bool
  | analyze | typeOf _ | check _ | emit => true
  | _ => false

/-- Whether a command runs something. -/
def isDynamic : Command → Bool
  | run _ | evaluate .. | execute .. | call .. => true
  | _ => false

end Command

/-- A command with what it led to. -/
structure Record where
  /-- The command. -/
  command : Command
  /-- The answer or the error. -/
  answer : Except ToolError Answer
  /-- The session behind the command. -/
  after : Session

/-- Carries out a command, whose output is kept apart from that of the commands before it. -/
def perform (session : Session) (command : Command) : Record :=
  match command.step session.clearEvents with
  | .ok answer after => { command, answer := .ok answer, after }
  | .error e after => { command, answer := .error e, after }

section

variable {session after : Session} {command : Command} {action : Action} {answer : Answer}
  {e : ToolError}

theorem perform_of_ok (hread : command.read = .ok action)
    (h : action.step session.clearEvents = .ok answer after) :
    session.perform command = { command, answer := .ok answer, after } := by
  simp only [perform, Command.step, hread, h]

theorem perform_of_error (hread : command.read = .ok action)
    (h : action.step session.clearEvents = .error e after) :
    session.perform command = { command, answer := .error e, after } := by
  simp only [perform, Command.step, hread, h]

theorem perform_of_read_eq_error (hread : command.read = .error e) :
    session.perform command = { command, answer := .error e, after := session.clearEvents } := by
  unfold perform Command.step
  rw [hread]
  rfl

theorem command_perform : (session.perform command).command = command := by
  unfold perform
  cases command.step session.clearEvents <;> rfl

end

/-- Carries out commands one after the other. -/
def records (session : Session) : List Command → List Record
  | [] => []
  | command :: rest =>
    let record := session.perform command
    record :: records record.after rest

/-- Commands can be left out without a change of what is seen of the others, if they keep what two
sessions have in common, and the others keep it if both sessions carry them out. -/
theorem records_filter {α : Type} {R : Session → Session → Prop} {view : Record → α}
    (keep : Command → Bool)
    (hdrop : ∀ command session session', keep command = false → R session session' →
      R (session.perform command).after session')
    (hkeep : ∀ command session session', keep command = true → R session session' →
      view (session.perform command) = view (session'.perform command) ∧
        R (session.perform command).after (session'.perform command).after)
    (commands : List Command) : ∀ {session session' : Session}, R session session' →
      ((session.records commands).filter fun record => keep record.command).map view =
        (session'.records (commands.filter keep)).map view := by
  induction commands with
  | nil => exact fun _ => rfl
  | cons command rest ih =>
    intro session session' h
    rw [records, List.filter_cons, List.filter_cons, command_perform]
    cases hcase : keep command with
    | false =>
      -- only the first session moves
      exact ih (hdrop command session session' hcase h)
    | true =>
      obtain ⟨hview, hafter⟩ := hkeep command session session' hcase h
      exact congrArg₂ List.cons hview (ih hafter)

end Session

end BlockScript

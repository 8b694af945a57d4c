import BlockScript.Proofs.Session.Command
import BlockScript.Proofs.Session.Scopes
import BlockScript.Proofs.Surface.Composition
import BlockScript.Proofs.Surface.Evaluation
/-!
# What commands depend on, and what they change

An action of the static side finds something out from the tables and the program, whatever the state
of the run is; an action of the dynamic side is a computation on the state of the run, which the
program does not take part in but for its tree. So the effects of the two sides are on different
parts of a session.

## Main definitions

* `Session.Action.findings?` — what an action of the static side finds out
* `Session.Action.computation?` — what an action of the dynamic side computes
* `Session.StaticEffect`, `Session.DynamicEffect` — what the sides change

## Main results

* `Session.Action.step_of_findings?`, `Session.Action.step_of_computation?` — what actions are
* `Session.Action.composed_computation` — what computations are made of
* `Session.Action.alike_computation` — computations for the same tree
* `Session.staticEffect_perform`, `Session.dynamicEffect_perform` — what commands change
-/

namespace BlockScript

namespace Session

/-- What is found out about tables and a program. -/
structure Findings where
  /-- The answer or the error. -/
  answer : Except ToolError Answer
  /-- The tables behind the action. -/
  tables : Tables
  /-- The program behind the action, with its annotations. -/
  program : Node
  /-- The notes taken. -/
  notes : List (Int × String)

/-- The answer if a check finds no fault. -/
def answerUnlessFault {α : Type} (checked : Checked α) (answer : Answer) :
    Except ToolError Answer :=
  match checked.fault with
  | some fault => .error (.ofFault fault)
  | none => .ok answer

/-- What an action of the static side finds out. -/
def Action.findings? (tables : Tables) (program : Node) : Action → Option Findings
  | .analyze =>
    let checked := checkProgram tables program
    some {
      answer := answerUnlessFault checked .done
      tables := checked.result.2
      program := checked.result.1
      notes := checked.notes }
  | .typeOf expression =>
    let checked := checkExpression tables.chain expression
    some {
      answer := answerUnlessFault checked (.type checked.result.type?)
      tables
      program
      notes := checked.notes }
  | .check statement =>
    let checked := checkStatement tables statement
    some {
      answer := answerUnlessFault checked .done
      tables := checked.result.2
      program
      notes := checked.notes }
  | .emit =>
    some {
      answer := ((emitProgram program).mapError .ofEmission).map fun form => .text form.text
      tables
      program
      notes := [] }
  | _ => none

/-- The session behind an action that found something out. -/
def Findings.after (found : Findings) (session : Session) : Session where
  tables := found.tables
  program := found.program
  world := { session.world with transcript := session.world.transcript.notes found.notes }

/-- The end of an action that found something out. -/
def Findings.conclude (found : Findings) (session : Session) :
    EStateM.Result ToolError Session Answer :=
  match found.answer with
  | .ok answer => .ok answer (found.after session)
  | .error e => .error e (found.after session)

/-- What an action of the dynamic side computes with a value, if it does. -/
def Action.valueOf? (program : Node) : Action → Option (Run Value)
  | .run fuel => some (runProgram fuel program)
  | .evaluate fuel expression => some (BlockScript.evaluate fuel [] expression)
  | .call fuel name arity arguments => some do
    let routine ← Run.findFunction [] name arity
    let (values, world) := (← get).storeAll arguments
    set world
    invoke fuel routine values
  | _ => none

/-- What an action of the dynamic side computes. -/
def Action.computation? (program : Node) : Action → Option (Run Answer)
  | .execute fuel statement => some do
    let (outcome, _) ← BlockScript.execute fuel [] statement
    let world ← get
    return .outcome (outcome.map world.datum)
  | action => (action.valueOf? program).map fun x => do
    let value ← x
    return .datum ((← get).datum value)

section

variable {action : Action} {session : Session}

theorem throwFault_bind_apply {α : Type} (checked : Checked α) (answer : Answer)
    (after : Session) :
    (do
      Step.throwFault checked
      return answer : Step Answer) after =
      match answerUnlessFault checked answer with
      | .ok answer => .ok answer after
      | .error e => .error e after := by
  unfold Step.throwFault answerUnlessFault
  cases checked.fault <;> rfl

/-- An action of the static side does nothing but what it finds out. -/
theorem Action.step_of_findings? {found : Findings}
    (h : action.findings? session.tables session.program = some found) :
    action.step session = found.conclude session := by
  cases action with
  | analyze =>
    cases h
    exact throwFault_bind_apply (checkProgram session.tables session.program) .done _
  | typeOf expression =>
    cases h
    let checked := checkExpression session.tables.chain expression
    refine Eq.trans ?_ (throwFault_bind_apply checked (.type checked.result.type?) _)
    exact congrFun (bind_assoc (Step.throwFault checked) _ _) _
  | check statement =>
    cases h
    exact throwFault_bind_apply (checkStatement session.tables statement) .done _
  | emit =>
    cases h
    rw [step, Scoped.bind_apply, Session.emit, Scoped.get_bind_apply, Findings.conclude]
    cases emitProgram session.program <;> rfl
  | _ => cases h

/-- An action of the dynamic side is a computation on the state of the run. -/
theorem Action.step_of_computation? {x : Run Answer}
    (h : action.computation? session.program = some x) :
    action.step session = Step.ofRun x session := by
  have hdatum : ∀ x : Run Value, (do return Answer.datum (← Step.ofRunDatum x) : Step Answer)
      session = Step.ofRun (do
        let value ← x
        return .datum ((← get).datum value)) session := by
    intro x
    simp only [Step.ofRunDatum, Step.ofRun, Scoped.bind_apply]
    cases x session.world <;> rfl
  cases action with
  | execute fuel statement =>
    cases h
    change (do return Answer.outcome (← Session.execute fuel statement) : Step Answer) session = _
    simp only [Session.execute, Step.ofRun, Scoped.bind_apply]
    cases BlockScript.execute fuel [] statement session.world <;> rfl
  | run fuel | evaluate fuel expression | call fuel name arity arguments =>
    cases h
    exact hdatum _
  | _ => cases h

/-! ### Computations -/

/-- Every computation is made of silent steps, notes and prints. -/
theorem Action.composed_computation {program : Node} {x : Run Answer}
    (h : action.computation? program = some x) : Run.Composed x := by
  have hdatum : ∀ {x : Run Value}, Run.Composed x → Run.Composed (do
      let value ← x
      return Answer.datum ((← get).datum value)) := by
    intro x hx
    apply hx.bind
    intro value
    have hblind : World.Blind fun world => Answer.datum (world.datum value) :=
      fun world transcript =>
      congrArg (fun datum => Answer.datum (datum value)) (World.blind_datum world transcript)
    exact Run.composed_view hblind Run.composed_pure
  cases action with
  | run fuel =>
    cases h
    exact hdatum (Run.composed_runProgram fuel program)
  | evaluate fuel expression =>
    cases h
    exact hdatum (Run.composed_evaluate fuel [] expression)
  | execute fuel statement =>
    cases h
    apply (Run.composed_execute fuel [] statement).bind
    rintro ⟨outcome, locals⟩
    have hblind : World.Blind fun world => Answer.outcome (outcome.map world.datum) :=
      fun world transcript =>
        congrArg (fun datum => Answer.outcome (outcome.map datum))
          (World.blind_datum world transcript)
    exact Run.composed_view hblind Run.composed_pure
  | call fuel name arity arguments =>
    cases h
    apply hdatum
    apply (Run.composed_findFunction name arity).bind
    intro routine
    exact (Run.composed_storeAll arguments).bind (Run.composed_invoke fuel routine)
  | _ => cases h

/-- Computations for the same tree cannot be told apart, whatever its annotations are. -/
theorem Action.alike_computation {program program' : Node} {x x' : Run Answer}
    (herase : program.erase = program'.erase) (h : action.computation? program = some x)
    (h' : action.computation? program' = some x') : Run.Alike id x x' := by
  have hdatum : ∀ {x x' : Run Value}, Run.Alike id x x' → Run.Alike id
      (do
        let value ← x
        return Answer.datum ((← get).datum value))
      (do
        let value ← x'
        return Answer.datum ((← get).datum value)) := by
    intro x x' hx
    apply Run.alike_bind_id hx
    intro value
    exact Run.alike_get fun _ _ hsurface => Run.alike_pure (by rw [World.datum_eq hsurface])
  cases action with
  | run fuel =>
    cases h
    cases h'
    have hprogram' := Run.alike_runProgram fuel program'
    rw [← herase] at hprogram'
    exact hdatum ((Run.alike_runProgram fuel program).trans hprogram'.symm)
  | evaluate fuel expression =>
    cases h
    cases h'
    have hexpression := Run.alike_evaluate fuel [] expression
    exact hdatum (hexpression.trans hexpression.symm)
  | execute fuel statement =>
    cases h
    cases h'
    have hstatement := Run.alike_execute fuel [] statement
    apply Run.alike_bind_id (hstatement.trans hstatement.symm)
    intro result
    exact Run.alike_get fun _ _ hsurface => Run.alike_pure (by rw [World.datum_eq hsurface])
  | call fuel name arity arguments =>
    cases h
    cases h'
    apply hdatum
    apply Run.alike_bind (Run.alike_findFunction [] name arity)
    intro routine routine' hroutine world world' hsurface
    -- the arguments get the same lists, and the functions differ in annotations at most
    obtain ⟨hvalues, hafter⟩ := World.surface_storeAll arguments hsurface
    refine (Run.alike_invoke fuel hroutine _ _ _ hafter).trans ?_
    exact congrArg (fun values => Run.onSurface id (invoke fuel routine' values _)) hvalues
  | _ => cases h

/-! ### Effects -/

/-- What the static side may do: it declares, it annotates the program, and it takes notes. -/
structure StaticEffect (session after : Session) : Prop where
  tables : session.tables.Declares after.tables
  program : after.program.erase = session.program.erase
  world : ∃ latestFirst, after.world = { session.world with
    transcript := { session.world.transcript with latestFirst } }

/-- What the dynamic side may do: it writes. -/
structure DynamicEffect (session after : Session) : Prop where
  tables : after.tables = session.tables
  program : after.program = session.program
  world : session.world.Writes after.world

theorem StaticEffect.refl (session : Session) : StaticEffect session session :=
  ⟨.refl, rfl, session.world.transcript.latestFirst, rfl⟩

theorem DynamicEffect.refl (session : Session) : DynamicEffect session session :=
  ⟨rfl, rfl, .refl⟩

/-- Notes are put in front of what is there. -/
theorem notes_eq (notes : List (Int × String)) : ∀ transcript : Transcript,
    ∃ latestFirst, transcript.notes notes = { transcript with latestFirst } := by
  induction notes with
  | nil => exact fun transcript => ⟨transcript.latestFirst, rfl⟩
  | cons note rest ih =>
    intro transcript
    obtain ⟨latestFirst, h⟩ := ih (transcript.note note.1 fun _ => note.2)
    refine ⟨latestFirst, h.trans ?_⟩
    unfold Transcript.note
    split <;> rfl

/-- What is found out is declared and annotated. -/
theorem Action.declares_of_findings? {tables : Tables} {program : Node} {found : Findings}
    (h : action.findings? tables program = some found) :
    tables.Declares found.tables ∧ found.program.erase = program.erase := by
  cases action with
  | analyze =>
    cases h
    exact ⟨declares_program tables program, annotates_program tables program⟩
  | typeOf expression =>
    cases h
    exact ⟨.refl, rfl⟩
  | check statement =>
    cases h
    exact ⟨declares_statement tables statement, rfl⟩
  | emit =>
    rw [findings?] at h
    cases hform : emitProgram program <;> rw [hform] at h <;> cases h <;> exact ⟨.refl, rfl⟩
  | _ => cases h

/-! ### Commands -/

variable {command : Command}

theorem exists_of_map_eq_ok {α : Type} {found : Except ToolError α} {f : α → Action}
    (h : found.map f = .ok action) : ∃ a, f a = action := by
  cases found with
  | error e => cases h
  | ok a => exact ⟨a, Except.ok.inj h⟩

/-- A command of the static side is read as an action that finds something out. -/
theorem Command.exists_findings? (hread : command.read = .ok action)
    (hstatic : command.isStatic = true) (tables : Tables) (program : Node) :
    ∃ found, action.findings? tables program = some found := by
  cases command with
  | analyze | emit =>
    cases hread
    exact ⟨_, rfl⟩
  | typeOf | check =>
    obtain ⟨found, rfl⟩ := exists_of_map_eq_ok hread
    exact ⟨_, rfl⟩
  | _ => cases hstatic

/-- A command of the dynamic side is read as an action that computes something. -/
theorem Command.exists_computation? (hread : command.read = .ok action)
    (hdynamic : command.isDynamic = true) (program : Node) :
    ∃ x, action.computation? program = some x := by
  cases command with
  | run | call =>
    cases hread
    exact ⟨_, rfl⟩
  | evaluate | execute =>
    obtain ⟨found, rfl⟩ := exists_of_map_eq_ok hread
    exact ⟨_, rfl⟩
  | _ => cases hdynamic

/-- A command of neither side is read as an action that takes a program. -/
theorem Command.exists_load (hread : command.read = .ok action)
    (hstatic : command.isStatic = false) (hdynamic : command.isDynamic = false) :
    ∃ program, action = .load program := by
  cases command with
  | load | loadTree =>
    obtain ⟨program, rfl⟩ := exists_of_map_eq_ok hread
    exact ⟨program, rfl⟩
  | analyze | typeOf | check | emit => cases hstatic
  | _ => cases hdynamic

theorem perform_of_findings? {found : Findings} (hread : command.read = .ok action)
    (h : action.findings? session.tables session.program = some found) :
    session.perform command =
      { command, answer := found.answer, after := found.after session.clearEvents } := by
  have hstep : action.step session.clearEvents = found.conclude session.clearEvents :=
    Action.step_of_findings? h
  unfold Findings.conclude at hstep
  cases hanswer : found.answer with
  | ok answer =>
    rw [hanswer] at hstep
    exact perform_of_ok hread hstep
  | error e =>
    rw [hanswer] at hstep
    exact perform_of_error hread hstep

theorem perform_of_computation? {x : Run Answer} (hread : command.read = .ok action)
    (h : action.computation? session.program = some x) :
    session.perform command = match x session.clearEvents.world with
      | .ok answer world => { command, answer := .ok answer, after := { session with world } }
      | .error failure world =>
        { command, answer := .error (.ofFailure failure), after := { session with world } } := by
  have hstep : action.step session.clearEvents = Step.ofRun x session.clearEvents :=
    Action.step_of_computation? h
  unfold Step.ofRun at hstep
  cases hend : x session.clearEvents.world with
  | ok answer world =>
    rw [hend] at hstep
    exact perform_of_ok hread hstep
  | error failure world =>
    rw [hend] at hstep
    exact perform_of_error hread hstep

/-- A command of neither side takes a program if it can be read. -/
theorem perform_of_load (hread : command.read = .ok action) (hstatic : command.isStatic = false)
    (hdynamic : command.isDynamic = false) :
    ∃ program, ∀ session : Session, session.perform command =
      { command, answer := .ok (.ofProgram program), after := session.clearEvents.load program }
    := by
  obtain ⟨program, rfl⟩ := Command.exists_load hread hstatic hdynamic
  exact ⟨program, fun session => perform_of_ok hread rfl⟩

theorem staticEffect_perform (session : Session) (h : command.isStatic = true) :
    StaticEffect session.clearEvents (session.perform command).after := by
  cases hread : command.read with
  | error e =>
    rw [perform_of_read_eq_error hread]
    exact .refl _
  | ok action =>
    obtain ⟨found, hfound⟩ := Command.exists_findings? hread h session.tables session.program
    obtain ⟨htables, hprogram⟩ := Action.declares_of_findings? hfound
    obtain ⟨latestFirst, hnotes⟩ := notes_eq found.notes session.clearEvents.world.transcript
    rw [perform_of_findings? hread hfound]
    exact ⟨htables, hprogram, latestFirst, by rw [Findings.after, hnotes]⟩

theorem dynamicEffect_perform (session : Session) (h : command.isDynamic = true) :
    DynamicEffect session.clearEvents (session.perform command).after := by
  cases hread : command.read with
  | error e =>
    rw [perform_of_read_eq_error hread]
    exact .refl _
  | ok action =>
    obtain ⟨x, hx⟩ := Command.exists_computation? hread h session.program
    have hwrites := (Action.composed_computation hx).writing session.clearEvents.world
    rw [perform_of_computation? hread hx]
    cases hend : x session.clearEvents.world with
    | ok answer world | error failure world =>
      rw [hend] at hwrites
      exact ⟨rfl, rfl, hwrites⟩

end

end Session

end BlockScript

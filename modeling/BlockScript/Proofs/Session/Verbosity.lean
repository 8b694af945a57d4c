import BlockScript.Proofs.Session.Effect
/-!
# Verbosity

A session is traced by notes, and its verbosity decides which of them are kept. Nothing but the
transcript depends on it: to carry a command out and then to lower the verbosity, which takes the
notes away that are beyond it, is the same as to lower the verbosity first.

## Main definitions

* `Event.isWithin` — events that are of interest at a level
* `Transcript.lowered`, `World.lowered`, `Session.lowered` — what is there at a lower verbosity

## Main results

* `Run.Composed.lowers` — runs at a lower verbosity
* `Session.records_lowered` — sessions at a lower verbosity
* `Session.verbosity_only_filters` — two verbosities
-/

namespace BlockScript

/-- Whether an event is of interest at a level. What the program prints always is. -/
def Event.isWithin (level : Int) : Event → Bool
  | printed _ => true
  | note own _ => own ≤ level

namespace Transcript

variable {level : Int}

/-- The transcript with a verbosity of at most the given level. -/
def lowered (level : Int) (t : Transcript) : Transcript where
  verbosity := min level t.verbosity
  latestFirst := t.latestFirst.filter (Event.isWithin level)

theorem events_lowered (t : Transcript) :
    (t.lowered level).events = t.events.filter (Event.isWithin level) :=
  List.filter_reverse.symm

theorem lowered_print (t : Transcript) (text : String) :
    (t.print text).lowered level = (t.lowered level).print text :=
  rfl

theorem keeps_lowered (t : Transcript) (own : Int) :
    (t.lowered level).keeps own = (t.keeps own && decide (own ≤ level)) := by
  simp only [keeps, lowered, Int.le_min, Bool.decide_and]
  rw [Bool.and_comm (decide (own ≤ level)), Bool.and_assoc]

theorem lowered_note (t : Transcript) (own : Int) (text : Unit → String) :
    (t.note own text).lowered level = (t.lowered level).note own text := by
  rw [note, note, keeps_lowered]
  cases t.keeps own with
  | false => rfl
  | true =>
    -- the note is within the level, or it is kept and then taken away
    rw [Bool.true_and, if_pos rfl, lowered, List.filter_cons, Event.isWithin]
    split <;> rfl

theorem lowered_notes (taken : List (Int × String)) : ∀ t : Transcript,
    (t.notes taken).lowered level = (t.lowered level).notes taken := by
  induction taken with
  | nil => exact fun _ => rfl
  | cons first rest ih =>
    intro t
    exact (ih (t.note first.1 fun _ => first.2)).trans
      (congrArg (notes · rest) (lowered_note t first.1 fun _ => first.2))

end Transcript

/-- The state of a run with a verbosity of at most the given level. -/
def World.lowered (level : Int) (world : World) : World :=
  { world with transcript := world.transcript.lowered level }

/-! ### Runs -/

namespace Run

variable {α β : Type} {level : Int}

/-- A result that leaves a lowered verbosity behind. -/
def lowerResult (level : Int) :
    EStateM.Result Failure World α → EStateM.Result Failure World α
  | .ok a world => .ok a (world.lowered level)
  | .error failure world => .error failure (world.lowered level)

/-- A silent computation has nothing to do with the verbosity. -/
theorem Silent.lowers {x : Run α} (h : Silent x) (world : World) :
    x (world.lowered level) = lowerResult level (x world) := by
  have hself : x world = withTranscript world.transcript (x world) := h world world.transcript
  rw [World.lowered, h world, hself]
  cases x world <;> rfl

/-- What is made of silent steps, notes and prints does the same at a lower verbosity, but for the
notes beyond it. -/
theorem Composed.lowers {x : Run α} (h : Composed x) : ∀ world : World,
    x (world.lowered level) = lowerResult level (x world) := by
  induction h with
  | step hsilent _ => exact hsilent.lowers
  | note own hblind =>
    intro world
    refine congrArg (fun transcript => EStateM.Result.ok () { world with transcript }) ?_
    rw [Transcript.lowered_note]
    exact congrArg (fun text => Transcript.note _ own fun _ => text) (hblind world _)
  | print argument =>
    intro world
    refine congrArg (fun transcript => EStateM.Result.ok () { world with transcript }) ?_
    rw [Transcript.lowered_print]
    exact congrArg (fun textOf => Transcript.print _ (textOf argument)) (World.blind_textOf world _)
  | @bind α β x k _ _ ihx ihk =>
    intro world
    rw [Scoped.bind_apply, Scoped.bind_apply, ihx world]
    cases x world with
    | ok a after => exact ihk a after
    | error failure after => rfl

end Run

/-! ### Sessions -/

namespace Session

variable {level : Int} {command : Command}

/-- The session with a verbosity of at most the given level. -/
def lowered (level : Int) (session : Session) : Session :=
  { session with world := session.world.lowered level }

theorem events_lowered (session : Session) :
    (session.lowered level).events = session.events.filter (Event.isWithin level) :=
  Transcript.events_lowered session.world.transcript

/-- The record of a command at a lower verbosity. -/
def Record.lowered (level : Int) (record : Record) : Record :=
  { record with after := record.after.lowered level }

/-- A command does the same at a lower verbosity. -/
theorem perform_lowered (session : Session) (command : Command) :
    (session.lowered level).perform command = (session.perform command).lowered level := by
  cases hread : command.read with
  | error e =>
    rw [perform_of_read_eq_error hread, perform_of_read_eq_error hread]
    rfl
  | ok action =>
    cases hstatic : command.isStatic with
    | true =>
      obtain ⟨found, hfound⟩ :=
        Command.exists_findings? hread hstatic session.tables session.program
      have hfound' : action.findings? (session.lowered level).tables
          (session.lowered level).program = some found := hfound
      rw [perform_of_findings? hread hfound, perform_of_findings? hread hfound']
      -- what is found does not depend on the verbosity, only which of the notes are kept
      have hnotes : (session.clearEvents.world.transcript.notes found.notes).lowered level =
          (session.lowered level).clearEvents.world.transcript.notes found.notes :=
        Transcript.lowered_notes found.notes session.clearEvents.world.transcript
      rw [Findings.after, ← hnotes]
      rfl
    | false =>
      cases hdynamic : command.isDynamic with
      | true =>
        obtain ⟨x, hx⟩ := Command.exists_computation? hread hdynamic session.program
        have hx' : action.computation? (session.lowered level).program = some x := hx
        have hlowers : x (session.lowered level).clearEvents.world =
            Run.lowerResult level (x session.clearEvents.world) :=
          (Action.composed_computation hx).lowers session.clearEvents.world
        rw [perform_of_computation? hread hx, perform_of_computation? hread hx', hlowers]
        cases x session.clearEvents.world <;> rfl
      | false =>
        -- a command that neither analyzes nor runs only puts another program into the session
        obtain ⟨program, hperform⟩ := perform_of_load hread hstatic hdynamic
        rw [hperform, hperform]
        rfl

/-- A row of commands does the same at a lower verbosity. -/
theorem records_lowered (commands : List Command) : ∀ session : Session,
    (session.lowered level).records commands =
      (session.records commands).map (Record.lowered level) := by
  induction commands with
  | nil => exact fun _ => rfl
  | cons command rest ih =>
    intro session
    rw [records, records, perform_lowered, List.map_cons]
    exact congrArg (List.cons _) (ih (session.perform command).after)

/-- The output of a row of commands. -/
def output (records : List Record) : List Event :=
  records.flatMap fun record => record.after.events

theorem output_lowered (records : List Record) :
    output (records.map (Record.lowered level)) =
      (output records).filter (Event.isWithin level) := by
  rw [output, output, List.flatMap_map, List.filter_flatMap]
  exact congrArg (records.flatMap ·) (funext fun record => events_lowered record.after)

/-- A program that prints a line, in a session that analyzes it and runs it. -/
def tracedCommands : List Command :=
  [.load "FUN main() DO print(1); END", .analyze, .run 20]

example : output ((initial 1).records tracedCommands) =
    [.note 1 "analyze: 0 globals, 1 functions", .note 1 "run: 0 globals, 1 functions",
      .printed "1", .note 1 "main returned null"] := by
  cbv

end Session

end BlockScript

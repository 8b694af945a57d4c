import BlockScript.Proofs.Session.Effect
/-!
# The two sides of a session are independent

Commands of the static side can be left out of a session, and what is seen of the others stays the
same as far as it belongs to runs; commands of the dynamic side can be left out, and what is seen of
the others stays the same as far as it belongs to the analysis. For either side two sessions are
related if they have in common what that side depends on: every command of the other side keeps the
relation in one of the sessions alone, and the remaining commands keep it in both and are answered
in the same way. The shared scope of the built-in functions is written by neither.

## Main definitions

* `Session.DynamicView`, `Session.StaticView` — what is seen of a command on either side
* `Session.RunAlike`, `Session.StaticAlike` — what two sessions have in common for either side

## Main results

* `Session.runAlike_perform`, `Session.staticAlike_perform` — one command in two sessions
* `Session.sides_are_independent` — any row of commands
-/

namespace BlockScript

namespace Session

/-! ### The dynamic side -/

/-- What is seen of a command on the dynamic side. -/
structure DynamicView where
  /-- The command. -/
  command : Command
  /-- The answer or the error. -/
  answer : Except ToolError Answer
  /-- The output. -/
  events : List Event
  /-- The variables, the lists and the functions of the program behind the command. -/
  surface : Surface

/-- What is seen of a command on the dynamic side. -/
def Record.dynamicView (record : Record) : DynamicView where
  command := record.command
  answer := record.answer
  events := record.after.events
  surface := record.after.world.surface

/-- Runs cannot tell two sessions apart. -/
structure RunAlike (session session' : Session) : Prop where
  surface : session.clearEvents.world.surface = session'.clearEvents.world.surface
  program : session.program.erase = session'.program.erase

variable {command : Command} {session session' after after' : Session}

/-- On the same surface the next command begins on the same surface. -/
theorem surface_clearEvents (h : session.world.surface = session'.world.surface) :
    session.clearEvents.world.surface = session'.clearEvents.world.surface := by
  obtain ⟨hvars, hheap, htranscript, hfuns⟩ := World.surface_eq_iff.mp h
  refine World.surface_eq_iff.mpr ⟨hvars, hheap, ?_, hfuns⟩
  exact congrArg (fun transcript : Transcript => { transcript with latestFirst := [] }) htranscript

/-- Runs do not notice what the static side does. -/
theorem RunAlike.of_staticEffect (h : RunAlike session session')
    (heffect : StaticEffect session.clearEvents after) : RunAlike after session' := by
  obtain ⟨-, hprogram, latestFirst, hworld⟩ := heffect
  have hcleared : after.clearEvents.world = session.clearEvents.world := by
    rw [clearEvents, hworld]
    rfl
  exact ⟨hcleared ▸ h.surface, hprogram.trans h.program⟩

/-- Two sessions that runs cannot tell apart answer a command that is not of the static side in the
same way, and cannot be told apart behind it. -/
theorem runAlike_perform (h : RunAlike session session') (hstatic : command.isStatic = false) :
    (session.perform command).dynamicView = (session'.perform command).dynamicView ∧
      RunAlike (session.perform command).after (session'.perform command).after := by
  have hview : ∀ {answer : Except ToolError Answer} {after after' : Session},
      after.world.surface = after'.world.surface → after.program.erase = after'.program.erase →
        Record.dynamicView { command, answer, after } =
            Record.dynamicView { command, answer, after := after' } ∧
          RunAlike after after' := by
    intro answer after after' hsurface hprogram
    refine ⟨?_, surface_clearEvents hsurface, hprogram⟩
    have hevents : after.events = after'.events :=
      congrArg Transcript.events (World.transcript_eq hsurface)
    rw [Record.dynamicView, Record.dynamicView, hsurface, hevents]
  cases hread : command.read with
  | error e =>
    rw [perform_of_read_eq_error hread, perform_of_read_eq_error hread]
    exact hview h.surface h.program
  | ok action =>
    cases hdynamic : command.isDynamic with
    | false =>
      obtain ⟨program, hperform⟩ := perform_of_load hread hstatic hdynamic
      rw [hperform, hperform]
      exact hview h.surface rfl
    | true =>
      obtain ⟨x, hx⟩ := Command.exists_computation? hread hdynamic session.program
      obtain ⟨x', hx'⟩ := Command.exists_computation? hread hdynamic session'.program
      rw [perform_of_computation? hread hx, perform_of_computation? hread hx']
      -- the programs have the same tree, so the computations end alike, with a value or a failure
      obtain ⟨_, answer, after, after', hend, hend', rfl, hsurface⟩ |
          ⟨failure, after, after', hend, hend', hsurface⟩ :=
        Run.onSurface_cases (Action.alike_computation h.program hx hx' _ _ h.surface)
      · rw [hend, hend']
        exact hview hsurface h.program
      · rw [hend, hend']
        exact hview hsurface h.program

/-! ### The static side -/

/-- What is seen of a command on the static side. -/
structure StaticView where
  /-- The command. -/
  command : Command
  /-- The answer or the error. -/
  answer : Except ToolError Answer
  /-- The output. -/
  events : List Event
  /-- The static tables behind the command. -/
  tables : Tables
  /-- The program behind the command, with its annotations. -/
  program : Node

/-- What is seen of a command on the static side. -/
def Record.staticView (record : Record) : StaticView where
  command := record.command
  answer := record.answer
  events := record.after.events
  tables := record.after.tables
  program := record.after.program

/-- The analysis cannot tell two sessions apart. -/
structure StaticAlike (session session' : Session) : Prop where
  tables : session.tables = session'.tables
  program : session.program = session'.program
  verbosity : session.world.transcript.verbosity = session'.world.transcript.verbosity

/-- The analysis does not notice what the dynamic side does. -/
theorem StaticAlike.of_dynamicEffect (h : StaticAlike session session')
    (heffect : DynamicEffect session.clearEvents after) : StaticAlike after session' where
  tables := heffect.tables.trans h.tables
  program := heffect.program.trans h.program
  verbosity := heffect.world.verbosity_eq.trans h.verbosity

/-- Two sessions that the analysis cannot tell apart answer a command that is not of the dynamic
side in the same way, and cannot be told apart behind it. -/
theorem staticAlike_perform (h : StaticAlike session session')
    (hdynamic : command.isDynamic = false) :
    (session.perform command).staticView = (session'.perform command).staticView ∧
      StaticAlike (session.perform command).after (session'.perform command).after := by
  obtain ⟨htables, hprogram, hverbosity⟩ := h
  have hcleared : session.clearEvents.world.transcript = session'.clearEvents.world.transcript :=
    congrArg (fun verbosity => Transcript.mk verbosity []) hverbosity
  have hview : ∀ {answer : Except ToolError Answer} {after after' : Session},
      after.tables = after'.tables → after.program = after'.program →
        after.world.transcript = after'.world.transcript →
          Record.staticView { command, answer, after } =
              Record.staticView { command, answer, after := after' } ∧
            StaticAlike after after' := by
    intro answer after after' htables hprogram htranscript
    refine ⟨?_, htables, hprogram, congrArg Transcript.verbosity htranscript⟩
    have hevents : after.events = after'.events := congrArg Transcript.events htranscript
    rw [Record.staticView, Record.staticView, htables, hprogram, hevents]
  cases hread : command.read with
  | error e =>
    rw [perform_of_read_eq_error hread, perform_of_read_eq_error hread]
    exact hview htables hprogram hcleared
  | ok action =>
    cases hstatic : command.isStatic with
    | false =>
      obtain ⟨program, hperform⟩ := perform_of_load hread hstatic hdynamic
      rw [hperform, hperform]
      exact hview htables rfl hcleared
    | true =>
      obtain ⟨found, hfound⟩ :=
        Command.exists_findings? hread hstatic session.tables session.program
      -- the same tables and the same program, so there is nothing else to be found out
      have hfound' : action.findings? session'.tables session'.program = some found := by
        rw [← htables, ← hprogram, hfound]
      rw [perform_of_findings? hread hfound, perform_of_findings? hread hfound']
      exact hview rfl rfl (congrArg (Transcript.notes · found.notes) hcleared)

/-! ### The shared scope -/

/-- A command writes from the top scopes of the sides, and leaves the tables around them. -/
theorem writes_perform (session : Session) (command : Command) :
    session.scopes.Writes (· ∈ [1, 2]) (session.perform command).after.scopes ∧
      (session.perform command).after.tables.outer = session.tables.outer := by
  cases hstatic : command.isStatic with
  | true =>
    -- of the state of the run only the transcript is another one, which is in no scope
    obtain ⟨htables, -, latestFirst, hworld⟩ := staticEffect_perform session hstatic
    have hscopes : (session.perform command).after.scopes =
        scopes { session with tables := (session.perform command).after.tables } := by
      rw [scopes, hworld]
      rfl
    rw [hscopes]
    exact ⟨(writes_of_declares htables).mono (by simp), htables.outer_eq⟩
  | false =>
    cases hdynamic : command.isDynamic with
    | true =>
      obtain ⟨htables, -, hworld⟩ := dynamicEffect_perform session hdynamic
      have hscopes : (session.perform command).after.scopes =
          scopes { session.clearEvents with world := (session.perform command).after.world } := by
        rw [scopes, htables]
        rfl
      rw [hscopes, htables]
      exact ⟨(writes_of_writes hworld).mono (by simp), rfl⟩
    | false =>
      cases hread : command.read with
      | error e =>
        rw [perform_of_read_eq_error hread]
        exact ⟨.refl _, rfl⟩
      | ok action =>
        obtain ⟨program, hperform⟩ := perform_of_load hread hstatic hdynamic
        rw [hperform]
        exact ⟨.refl _, rfl⟩

/-- All that is ever written in a session is written from the top scopes of the sides. -/
theorem writes_records (commands : List Command) : ∀ session : Session,
    ∀ record ∈ session.records commands,
      session.scopes.Writes (· ∈ [1, 2]) record.after.scopes ∧
        record.after.tables.outer = session.tables.outer := by
  induction commands with
  | nil => exact fun _ _ hrecord => absurd hrecord List.not_mem_nil
  | cons command rest ih =>
    intro session
    obtain ⟨hwrites, houter⟩ := writes_perform session command
    refine List.forall_mem_cons.mpr ⟨⟨hwrites, houter⟩, fun record hrecord => ?_⟩
    obtain ⟨hwrites', houter'⟩ := ih (session.perform command).after record hrecord
    exact ⟨hwrites.trans hwrites', houter'.trans houter⟩

/-- The two sides of a session do not get in each other's way. If all commands that look at the
program before it runs are left out, every other command has the same answer or error and the same
output, and the same variables and functions are there behind it, up to the annotations of the
functions. If all commands that run something are left out, every other command has the same answer
or error and the same output, and the same tables are there behind it. Both sides find names in one
store of scopes, in which they write from their own top scopes only; and whatever is written from
there, the shared scope has just the built-in functions. -/
theorem sides_are_independent (verbosity : Int) (commands : List Command) :
    let records := (initial verbosity).records commands
    ((records.filter fun record => !record.command.isStatic).map Record.dynamicView =
      ((initial verbosity).records (commands.filter fun command => !command.isStatic)).map
        Record.dynamicView) ∧
    ((records.filter fun record => !record.command.isDynamic).map Record.staticView =
      ((initial verbosity).records (commands.filter fun command => !command.isDynamic)).map
        Record.staticView) ∧
    (∀ record ∈ records, record.after.SeesScopes ∧
      (initial verbosity).scopes.Writes (· ∈ [1, 2]) record.after.scopes) ∧
    ∀ store, (initial verbosity).scopes.Writes (· ∈ [1, 2]) store → store.frame 0 = builtins := by
  refine ⟨?_, ?_, fun record hrecord => ?_, fun store hwrites => ?_⟩
  · refine records_filter (R := RunAlike) (fun command => !command.isStatic) ?_ ?_ commands
      ⟨rfl, rfl⟩
    · intro command session session' hstatic h
      exact h.of_staticEffect (staticEffect_perform session (by simpa using hstatic))
    · intro command session session' hstatic h
      exact runAlike_perform h (by simpa using hstatic)
  · refine records_filter (R := StaticAlike) (fun command => !command.isDynamic) ?_ ?_ commands
      ⟨rfl, rfl, rfl⟩
    · intro command session session' hdynamic h
      exact h.of_dynamicEffect (dynamicEffect_perform session (by simpa using hdynamic))
    · intro command session session' hdynamic h
      exact staticAlike_perform h (by simpa using hdynamic)
  · obtain ⟨hwrites, houter⟩ := writes_records commands (initial verbosity) record hrecord
    exact ⟨seesScopes_of_outer_eq houter, hwrites⟩
  · exact hwrites.frame_eq (by simp) rfl

end Session

end BlockScript

import BlockScript.Proofs.Reordering.Analysis
import BlockScript.Proofs.Surface.Composition
import BlockScript.Proofs.Surface.Evaluation
/-!
# The order of functions has no influence on runs

All functions of a program are defined before `main` is called, and a call finds a function by its
name and number of arguments. So a run does the same in every order of the functions; if two of them
get into each other's way, or one is there already, then it ends with an error for this reason in
every order, behind the global variables and without a line more.

## Main definitions

* `Node.routine?` — what a function is found by and defined as
* `Definable` — functions that can all be defined
* `Run.SameRun` — runs with the same outcome, or with duplicate functions both

## Main results

* `defineFunctions_apply` — all functions are defined, or there is a duplicate
* `sameRun_of_perm` — runs in two orders
-/

namespace BlockScript

open Scoped (behind)

/-- What a function is found by, and what it is defined as. -/
def Node.routine? : Node → Option ((String × Nat) × Routine)
  | function name parameters _ _ body _ =>
    some ((name, parameters.length), .defined name parameters body)
  | _ => none

/-- Functions can all be defined: their names and numbers of parameters are new, and different from
each other. -/
structure Definable (world : World) (entries : List ((String × Nat) × Routine)) : Prop where
  /-- No two functions get into each other's way. -/
  nodup : (entries.map Prod.fst).Nodup
  /-- No function is there already. -/
  fresh : ∀ entry ∈ entries, world.top.findFunction? entry.1.1 entry.1.2 = none

section

variable {world : World} {entry : (String × Nat) × Routine}
  {entries entries' : List ((String × Nat) × Routine)}

theorem Definable.of_perm (hperm : entries'.Perm entries) (h : Definable world entries) :
    Definable world entries' where
  nodup := (hperm.map Prod.fst).nodup_iff.mpr h.nodup
  fresh entry hentry := h.fresh entry (hperm.mem_iff.mp hentry)

namespace World

@[simp]
theorem withRoutines_nil : world.withRoutines [] = world := by
  simp [withRoutines]

@[simp]
theorem withRoutines_withRoutines :
    (world.withRoutines entries).withRoutines entries' =
      world.withRoutines (entries ++ entries') := by
  simp [withRoutines]

theorem findFunction?_withRoutines {name : String} {arity : Nat} :
    (world.withRoutines entries).top.findFunction? name arity =
      (world.top.findFunction? name arity).or (entries.lookup (name, arity)) :=
  List.lookup_append

end World

/-- The first function is defined, and then the others are. -/
theorem definable_cons_iff : Definable world (entry :: entries) ↔
    world.top.findFunction? entry.1.1 entry.1.2 = none ∧
      Definable (world.withRoutines [entry]) entries := by
  have hfresh : ∀ other : (String × Nat) × Routine,
      (world.withRoutines [entry]).top.findFunction? other.1.1 other.1.2 = none ↔
        world.top.findFunction? other.1.1 other.1.2 = none ∧ other.1 ≠ entry.1 := by
    intro other
    rw [World.findFunction?_withRoutines, Option.or_eq_none_iff]
    simp [List.lookup_eq_none_iff]
  constructor
  · rintro ⟨hnodup, hnew⟩
    obtain ⟨hother, hnodup⟩ := List.nodup_cons.mp hnodup
    obtain ⟨hfirst, hothers⟩ := List.forall_mem_cons.mp hnew
    refine ⟨hfirst, hnodup, fun other hmem => (hfresh other).mpr ⟨hothers other hmem, ?_⟩⟩
    exact fun heq => hother (List.mem_map.mpr ⟨other, hmem, heq⟩)
  · rintro ⟨hfirst, hnodup, hnew⟩
    refine ⟨List.nodup_cons.mpr ⟨fun hmem => ?_, hnodup⟩, ?_⟩
    · obtain ⟨other, hother, heq⟩ := List.mem_map.mp hmem
      exact ((hfresh other).mp (hnew other hother)).2 heq
    · exact List.forall_mem_cons.mpr ⟨hfirst, fun other h => ((hfresh other).mp (hnew other h)).1⟩

end

/-! ### Definitions -/

namespace Run

/-- A result is an error because of a duplicate function, with the given state up to functions. -/
def IsDuplicate {α : Type} (world : World) (result : EStateM.Result Failure World α) : Prop :=
  ∃ name arity funs, result =
    .error (.error (.scope (.duplicateFunction name arity)))
      { world with top := { world.top with funs } }

end Run

section

variable {world : World}

/-- A function is defined if it is not there yet. -/
theorem defineFunction_eq {node : Node} {entry : (String × Nat) × Routine}
    (hentry : node.routine? = some entry) (hkeeps : world.transcript.keeps 2 = false) :
    (world.top.findFunction? entry.1.1 entry.1.2 = none →
      defineFunction node world = .ok () (world.withRoutines [entry])) ∧
    (world.top.findFunction? entry.1.1 entry.1.2 ≠ none →
      Run.IsDuplicate world (defineFunction node world)) := by
  cases node with
  | function name parameters parameterTypes resultType body signature =>
    obtain rfl := Option.some.inj hentry
    rw [Run.defineFunction_apply]
    dsimp only
    cases world.top.findFunction? name parameters.length with
    | some found =>
      exact ⟨nofun, fun _ => ⟨name, parameters.length, world.top.funs, rfl⟩⟩
    | none =>
      refine ⟨fun _ => ?_, fun h => absurd rfl h⟩
      -- the note of the definition is not kept
      have hout : ∀ text, world.transcript.note 2 text = world.transcript := by
        intro text
        rw [Transcript.note, hkeeps]
        rfl
      exact congrArg (fun transcript => EStateM.Result.ok ()
        { world.withRoutines [((name, parameters.length), .defined name parameters body)] with
          transcript }) (hout _)
  | _ => cases hentry

/-- All functions are defined if they can be; otherwise one of them is a duplicate. -/
theorem defineFunctions_apply {nodes : List Node}
    (hnodes : ∀ node ∈ nodes, node.routine?.isSome) :
    ∀ {world : World}, world.transcript.keeps 2 = false →
      (Definable world (nodes.filterMap Node.routine?) →
        nodes.forM defineFunction world =
          .ok () (world.withRoutines (nodes.filterMap Node.routine?))) ∧
      (¬Definable world (nodes.filterMap Node.routine?) →
        Run.IsDuplicate world (nodes.forM defineFunction world)) := by
  induction nodes with
  | nil =>
    intro world _
    refine ⟨fun _ => ?_, fun h => absurd ⟨List.nodup_nil, ?_⟩ h⟩
    · rw [List.filterMap_nil, World.withRoutines_nil]
      rfl
    · exact fun entry hentry => absurd hentry List.not_mem_nil
  | cons node rest ih =>
    intro world hkeeps
    obtain ⟨hnode, hrest⟩ := List.forall_mem_cons.mp hnodes
    obtain ⟨entry, hentry⟩ := Option.isSome_iff_exists.mp hnode
    have hforM : (node :: rest).forM defineFunction world =
        (defineFunction node >>= fun _ => rest.forM defineFunction) world := rfl
    rw [List.filterMap_cons_some hentry, definable_cons_iff, hforM, Scoped.bind_apply]
    obtain ⟨hdefine, hduplicate⟩ := defineFunction_eq hentry hkeeps
    by_cases hnew : world.top.findFunction? entry.1.1 entry.1.2 = none
    · obtain ⟨hall, hother⟩ := @ih hrest (world.withRoutines [entry]) hkeeps
      rw [hdefine hnew]
      refine ⟨fun h => ?_, fun h => ?_⟩
      · exact (hall h.2).trans (congrArg _ World.withRoutines_withRoutines)
      · obtain ⟨name, arity, funs, hresult⟩ := hother fun hdefinable => h ⟨hnew, hdefinable⟩
        exact ⟨name, arity, funs, hresult⟩
    · obtain ⟨name, arity, funs, hresult⟩ := hduplicate hnew
      rw [hresult]
      exact ⟨fun h => absurd h.1 hnew, fun _ => ⟨name, arity, funs, rfl⟩⟩

end

/-! ### Runs -/

namespace Run

/-- Two runs end with the same value or failure on the same surface, or both fail because of a
duplicate function after doing the same. -/
inductive SameRun {α : Type} (result result' : EStateM.Result Failure World α) : Prop
  | same (h : onSurface id result = onSurface id result')
  | duplicate {name name' : String} {arity arity' : Nat} {after after' : World}
    (h : result = .error (.error (.scope (.duplicateFunction name arity))) after)
    (h' : result' = .error (.error (.scope (.duplicateFunction name' arity'))) after')
    (hvars : after.top.vars = after'.top.vars) (hheap : after.heap = after'.heap)
    (htranscript : after.transcript = after'.transcript)

variable {α : Type} {result result' other other' : EStateM.Result Failure World α}

theorem eq_error_of_onSurface {failure : Failure} {after : World}
    (h : onSurface id result = onSurface id (.error failure after : EStateM.Result _ _ α)) :
    ∃ own : World, result = .error failure own ∧ own.surface = after.surface := by
  cases result with
  | ok value own => cases h
  | error failure' own =>
    obtain ⟨rfl, hsurface⟩ := EStateM.Result.error.inj h
    exact ⟨own, rfl, hsurface⟩

/-- Runs are the same if they are as others that are the same. -/
theorem SameRun.of_onSurface (h : SameRun result result')
    (hother : onSurface id other = onSurface id result)
    (hother' : onSurface id other' = onSurface id result') : SameRun other other' := by
  cases h with
  | same h => exact .same (hother.trans (h.trans hother'.symm))
  | duplicate h h' hvars hheap htranscript =>
    subst h h'
    obtain ⟨after, rfl, hafter⟩ := eq_error_of_onSurface hother
    obtain ⟨after', rfl, hafter'⟩ := eq_error_of_onSurface hother'
    refine .duplicate rfl rfl ?_ ?_ ?_
    · exact (World.vars_eq hafter).trans (hvars.trans (World.vars_eq hafter').symm)
    · exact (World.heap_eq hafter).trans (hheap.trans (World.heap_eq hafter').symm)
    · have hafter' := World.transcript_eq hafter'
      exact (World.transcript_eq hafter).trans (htranscript.trans hafter'.symm)

/-- Behind definitions in two orders comes the same. -/
theorem sameRun_defineFunctions {nodes nodes' : List Node} {next : Run α} {world : World}
    (hperm : nodes'.Perm nodes) (hnodes : ∀ node ∈ nodes, node.routine?.isSome)
    (hkeeps : world.transcript.keeps 2 = false) (hnext : Alike id next next) :
    SameRun ((nodes.forM defineFunction >>= fun _ => next) world)
      ((nodes'.forM defineFunction >>= fun _ => next) world) := by
  have hentries := hperm.filterMap Node.routine?
  have hnodes' : ∀ node ∈ nodes', node.routine?.isSome :=
    fun node hnode => hnodes node (hperm.mem_iff.mp hnode)
  obtain ⟨hall, hduplicate⟩ := defineFunctions_apply hnodes hkeeps
  obtain ⟨hall', hduplicate'⟩ := defineFunctions_apply hnodes' hkeeps
  rw [Scoped.bind_apply, Scoped.bind_apply]
  by_cases hdefinable : Definable world (nodes.filterMap Node.routine?)
  · rw [hall hdefinable, hall' (hdefinable.of_perm hentries)]
    apply SameRun.same (hnext _ _ (World.surface_withRoutines rfl fun key => ?_))
    rw [lookup_eq_of_perm hentries hdefinable.nodup]
  · obtain ⟨name, arity, funs, h⟩ := hduplicate hdefinable
    obtain ⟨name', arity', funs', h'⟩ := hduplicate' fun h => hdefinable (h.of_perm hentries.symm)
    rw [h, h']
    exact .duplicate rfl rfl rfl rfl rfl

end Run

open Run in
/-- A run does the same in every order of the functions, in every state in which definitions of
functions are not noted. -/
theorem sameRun_of_perm {globals functions functions' : List Node} {world : World} (fuel : Nat)
    (hperm : functions'.Perm functions) (hnodes : ∀ node ∈ functions, node.routine?.isSome)
    (hkeeps : world.transcript.keeps 2 = false) :
    SameRun (runProgram fuel (.program globals functions) world)
      (runProgram fuel (.program globals functions') world) := by
  -- up to the first definition of a function the two runs are one
  let start : Run Unit := do
    note 1 fun _ =>
      "run: " ++ toString globals.length ++ " globals, " ++ toString functions.length ++
        " functions"
    globals.forM (executeGlobal fuel)
  let main : Run Value := do
    let result ← callByName fuel "main" 0 []
    note 1 fun world => "main returned " ++ world.textOf result
    return result
  have hrun : runProgram fuel (.program globals functions) =
      start >>= fun _ => functions.forM defineFunction >>= fun _ => main := by
    rw [runProgram, bind_assoc]
  have hrun' : runProgram fuel (.program globals functions') =
      start >>= fun _ => functions'.forM defineFunction >>= fun _ => main := by
    rw [runProgram, bind_assoc, hperm.length_eq]
  have hwrites : World.Writes world (behind (start world)) :=
    writing_bind (writing_note _ _)
      (fun _ => (composed_forM (composed_executeGlobal fuel) globals).writing) world
  rw [hrun, hrun', Scoped.bind_apply, Scoped.bind_apply]
  cases hstart : start world with
  | error failure after => exact .same rfl
  | ok _ after =>
    have hkeeps' : after.transcript.keeps 2 = false := by
      rw [hstart] at hwrites
      have hverbosity : after.transcript.verbosity = world.transcript.verbosity :=
        hwrites.verbosity_eq
      rw [Transcript.keeps, hverbosity]
      exact hkeeps
    exact sameRun_defineFunctions hperm hnodes hkeeps' (alike_main fuel)

end BlockScript

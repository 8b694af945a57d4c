import BlockScript.Proofs.Watched.Agreement
/-!
# The invariant of a run

At every moment the place that is being executed agrees with the static tables of that place, and
the state of the run with those of the top level. From this follows what is wanted at every point:
values fit their types, and names mean what the analysis found.

## Main definitions

* `Watched.Place.Agrees` — a place and static tables
* `Watched.World.AgreesUpTo`, `Watched.World.Agrees` — the state of a run
* `Watched.Event.Fine` — what is wanted of an event itself

## Main results

* `Watched.World.AgreesUpTo.see` — whatever fine event is reported keeps the invariant
-/

namespace BlockScript

namespace Watched

/-- What can be seen at a place agrees with static tables. All entries that are open are smaller
than `bound`, and different. -/
structure Place.Agrees (context : Context) (bound : Nat) (tables : Tables) (place : Place) :
    Prop where
  locals : ∃ statics, tables.chain = statics ++ [context.globals, Tables.builtins] ∧
    LocalsAgree context.elements statics place.entries place.locals
  numbered : tables.WellNumbered
  nodup : (place.entries ++ [0]).Nodup
  lt_bound : ∀ entry ∈ place.entries ++ [0], entry < bound
  callers : ∀ slot ∈ slotsOf place.callers.flatten,
    ∃ binding, slot.origin = some binding ∧ Holds context.elements binding slot.value

/-- The state of a run agrees with the static table of the top level, as far as functions have been
defined, and nothing unwanted has happened. -/
structure World.AgreesUpTo (context : Context) (signatures : List ((String × Nat) × Signature))
    (world : World) : Prop where
  vars : VarsAgree context.elements 0 context.globals.vars world.top.vars
  funs : FunsAgree context signatures world.top.funs
  heap : HeapAgrees context.elements world.heap
  typed : ∀ point ∈ world.points, point.Typed
  bound : ∀ point ∈ world.points, point.Bound context.functions

/-- The state of a run agrees with the static table of the top level. -/
def World.Agrees (context : Context) (world : World) : Prop :=
  world.AgreesUpTo context context.globals.funs

/-! ### Variables that are there -/

section

variable {context : Context} {bound : Nat} {tables : Tables} {place : Place} {world : World}
  {signatures : List ((String × Nat) × Signature)}

theorem LocalsAgree.exists_binding {elements : List Ty} {statics : List StaticFrame}
    {entries : List Nat} {locals : Chain} (h : LocalsAgree elements statics entries locals) :
    ∀ slot ∈ slotsOf locals,
      ∃ binding, slot.origin = some binding ∧ Holds elements binding slot.value := by
  induction h with
  | nil => simp [slotsOf]
  | cons _ _ hvars _ ih =>
    intro slot hmem
    rw [slotsOf, List.flatMap_cons] at hmem
    rcases List.mem_append.mp hmem with hmem | hmem
    · obtain ⟨named, hnamed, rfl⟩ := List.mem_map.mp hmem
      obtain ⟨binding, hagrees⟩ := hvars.exists_binding named hnamed
      exact ⟨binding, hagrees.origin, hagrees.holds⟩
    · exact ih slot hmem

theorem World.AgreesUpTo.fits (hworld : world.AgreesUpTo context signatures) {binding : Binding}
    {slot : Slot} (horigin : slot.origin = some binding)
    (hholds : Holds context.elements binding slot.value) : slot.Fits world.heap := by
  generalize hvalue : slot.value = value at hholds
  cases hholds with
  | value hlist hty hfits =>
    refine ⟨binding, _, horigin, hty, ?_⟩
    rw [if_neg (by simp [hlist]), hvalue]
    exact hfits
  | @list ty handle hlist hty helement =>
    obtain ⟨items, hitems, hfits⟩ := hworld.heap.exists_items helement
    refine ⟨binding, ty, horigin, hty, ?_⟩
    rw [if_pos hlist]
    exact ⟨handle, items, hvalue, hitems, hfits⟩

/-- All variables that are there fit their types. -/
theorem Place.Agrees.fits (hplace : place.Agrees context bound tables)
    (hworld : world.AgreesUpTo context signatures) (event : Event) :
    ∀ slot ∈ Point.slots { event, place, top := world.top, heap := world.heap },
      slot.Fits world.heap := by
  intro slot hmem
  obtain ⟨statics, -, hlocals⟩ := hplace.locals
  rw [Point.slots, Point.visible, slotsOf, List.flatMap_append, List.mem_append,
    List.mem_append] at hmem
  -- local variables, global variables, and those of the functions that wait
  rcases hmem with (hlocal | htop) | hcaller
  · obtain ⟨binding, horigin, hholds⟩ := hlocals.exists_binding slot hlocal
    exact hworld.fits horigin hholds
  · rw [List.flatMap_singleton] at htop
    obtain ⟨named, hnamed, rfl⟩ := List.mem_map.mp htop
    obtain ⟨binding, hagrees⟩ := hworld.vars.exists_binding named hnamed
    exact hworld.fits hagrees.origin hagrees.holds
  · obtain ⟨binding, horigin, hholds⟩ := hplace.callers slot hcaller
    exact hworld.fits horigin hholds

theorem LocalsAgree.origins_sublist {elements : List Ty} {statics : List StaticFrame}
    {entries : List Nat} {locals : Chain} (h : LocalsAgree elements statics entries locals) :
    ((slotsOf locals).map Slot.origin).Sublist
      (statics.flatMap fun frame => frame.vars.map fun static => some static.2) := by
  induction h with
  | nil => exact .slnil
  | cons _ _ hvars _ ih =>
    rw [slotsOf, List.flatMap_cons, List.map_append, List.flatMap_cons, List.map_map]
    exact hvars.origins_sublist.append ih

/-- No two variables that can be seen were made by the same node. -/
theorem Place.Agrees.distinct (hplace : place.Agrees context bound tables)
    (hworld : world.AgreesUpTo context signatures) (event : Event) :
    ((Point.visible { event, place, top := world.top, heap := world.heap }).map
      Slot.origin).Nodup := by
  obtain ⟨statics, hchain, hlocals⟩ := hplace.locals
  -- the numbers of the bindings are different, hence the bindings
  have hstatic : ((statics ++ [context.globals]).flatMap fun frame =>
      frame.vars.map fun static => some static.2).Nodup := by
    have hnumbers := hplace.numbered.1
    have hbuiltins : Tables.numbers (statics ++ [context.globals, Tables.builtins]) =
        ((statics ++ [context.globals]).flatMap fun frame =>
          frame.vars.map fun static => some static.2).map fun binding =>
            (binding.map Binding.number).getD 0 := by
      simp [Tables.numbers, List.flatMap_append, List.map_flatMap, Tables.builtins, builtinFrame,
        Function.comp_def]
    rw [hchain, hbuiltins] at hnumbers
    exact hnumbers.of_map
  refine hstatic.sublist ?_
  -- variables are a part of the bindings, in the same order
  rw [Point.visible, slotsOf, List.flatMap_append, List.map_append, List.flatMap_append]
  refine hlocals.origins_sublist.append ?_
  rw [List.flatMap_singleton, List.flatMap_singleton, List.map_map]
  exact hworld.vars.origins_sublist

theorem LocalsAgree.entries {elements : List Ty} {statics : List StaticFrame}
    {entries : List Nat} {locals : Chain} (h : LocalsAgree elements statics entries locals) :
    List.Forall₂ (fun entry frame => ∀ slot ∈ slotsOf [frame], slot.entry = entry) entries
      locals := by
  induction h with
  | nil => exact .nil
  | cons _ _ hvars _ ih => exact .cons hvars.entry_eq ih

/-- What is wanted of an event, where certain variables can be seen. -/
def Event.Fine (context : Context) (visible : List Slot) : Event → Prop
  | .evaluated node value =>
    node.kind? = some .listLiteral ∨ ∃ ty, node.type? = some ty ∧ value.Fits ty
  | .resolved node slot =>
    slot ∈ visible ∧ ∃ binding, node.binding? = some binding ∧ slot.origin = some binding
  | .invoked node routine => ∃ f, node.callee? = some f ∧ routine.Is context.functions f
  | .refused node failure => ∀ e, failure = .error e → Excuse node e
  | .changed => True

/-- A fine event makes a point where nothing is left to be wanted. -/
theorem World.AgreesUpTo.see (hworld : world.AgreesUpTo context signatures)
    (hplace : place.Agrees context bound tables) {event : Event}
    (hfine : event.Fine context (slotsOf (place.locals ++ [world.top]))) :
    (world.see place event).AgreesUpTo context signatures := by
  refine ⟨hworld.vars, hworld.funs, hworld.heap, ?_, ?_⟩
  · refine List.forall_mem_cons.mpr ⟨⟨?_, hplace.fits hworld event, ?_⟩, hworld.typed⟩
    · rintro node value rfl
      exact hfine
    · rintro node e rfl
      exact hfine e rfl
  · refine List.forall_mem_cons.mpr
      ⟨⟨?_, ?_, hplace.distinct hworld event, ?_, hplace.nodup⟩, hworld.bound⟩
    · rintro node slot rfl
      exact hfine
    · rintro node routine rfl
      exact hfine
    · obtain ⟨statics, -, hlocals⟩ := hplace.locals
      exact List.rel_append hlocals.entries (.cons hworld.vars.entry_eq .nil)

end

end Watched

end BlockScript

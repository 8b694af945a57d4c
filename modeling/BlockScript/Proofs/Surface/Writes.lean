import Mathlib.Logic.Relation
import BlockScript.Proofs.Scoped.World
/-!
# What a run writes

Whatever a run does to its state, it does it write by write: a list is made or changed, a line is
put out, a variable or a function is defined in the top frame, or a variable of the top frame gets
another value. In particular notes are kept as before.

## Main definitions

* `World.Write`, `World.Writes` — one write, and writes one after the other
* `Run.Writing` — computations that do nothing but write

## Main results

* `World.Writes.verbosity_eq` — what no write changes
* `Run.writing_bind` — computations in a row
* `Run.writing_define`, `Run.writing_assign`, `Run.writing_note` — single steps
-/

namespace BlockScript

open Scoped (behind)

namespace World

/-- One write. -/
inductive Write (world : World) : World → Prop
  /-- A list is made or changed. -/
  | heap (heap : Array (List Value)) : Write world { world with heap }
  /-- A line is put out. -/
  | event (event : Event) :
    Write world { world with transcript := { world.transcript with
      latestFirst := event :: world.transcript.latestFirst } }
  /-- A variable is defined in the top frame. -/
  | define {name : String} {slot : Slot} {top : DynamicFrame}
    (h : world.top.defineVariable name slot = .ok top) : Write world { world with top }
  /-- A function is defined in the top frame. -/
  | function {name : String} {arity : Nat} {routine : Routine} {top : DynamicFrame}
    (h : world.top.defineFunction name arity routine = .ok top) : Write world { world with top }
  /-- A variable of the top frame gets another value. -/
  | assign (name : String) (value : Value) :
    Write world { world with
      top := world.top.updateVariable name fun slot => { slot with value } }

/-- Writes one after the other. -/
abbrev Writes : World → World → Prop :=
  Relation.ReflTransGen Write

variable {world after : World}

theorem Writes.verbosity_eq (h : world.Writes after) :
    after.transcript.verbosity = world.transcript.verbosity := by
  induction h with
  | refl => rfl
  | tail _ hwrite ih => cases hwrite <;> exact ih

mutual

/-- The lists of a datum are made by writes. -/
theorem writes_store : ∀ (datum : Datum) (world : World), world.Writes (world.store datum).2
  | .scalar _, _ => .refl
  | .list items, world => by
    rw [store]
    exact (writes_storeAll items world).tail (.heap _)

theorem writes_storeAll : ∀ (data : List Datum) (world : World),
    world.Writes (world.storeAll data).2
  | [], _ => .refl
  | item :: rest, world => by
    rw [storeAll]
    exact (writes_store item world).trans (writes_storeAll rest _)

end

end World

namespace Run

variable {α β : Type} {locals : DynamicChain}

/-- A computation does nothing but write, whether it fails or not. -/
def Writing (x : Run α) : Prop :=
  ∀ world, World.Writes world (behind (x world))

/-! ### Computations in a row -/

theorem writing_pure (a : α) : Writing (pure a) :=
  fun _ => .refl

theorem writing_throw (failure : Failure) : Writing (throw failure : Run α) :=
  fun _ => .refl

theorem writing_bind {x : Run α} {k : α → Run β} (hx : Writing x) (hk : ∀ a, Writing (k a)) :
    Writing (x >>= k) := by
  intro world
  have hfirst := hx world
  rw [Scoped.behind_bind]
  cases h : x world with
  | ok a after =>
    rw [h] at hfirst
    exact hfirst.trans (hk a after)
  | error failure after =>
    rwa [h] at hfirst

theorem writing_ite {p : Prop} [Decidable p] {x y : Run α} (hx : Writing x) (hy : Writing y) :
    Writing (if p then x else y) := by
  split
  · exact hx
  · exact hy

theorem writing_get {k : World → Run β} (h : ∀ world, Writing (k world)) :
    Writing (get >>= k) :=
  fun world => h world world

theorem writing_modify {change : World → World} (h : ∀ world, World.Write world (change world)) :
    Writing (modify change) :=
  fun world => .single (h world)

/-! ### Single steps -/

theorem writing_ofScope (found : Except ScopeError α) : Writing (ofScope found) := by
  cases found with
  | ok a => exact writing_pure a
  | error e => exact writing_throw _

theorem writing_note (level : Int) (text : World → String) : Writing (note level text) := by
  intro world
  have hbehind : behind (note level text world) =
      { world with transcript := world.transcript.note level fun _ => text world } := rfl
  rw [hbehind, Transcript.note]
  split
  · exact .single (.event (.note level (text world)))
  · exact .refl

theorem writing_findVariable (name : String) : Writing (findVariable locals name) :=
  writing_get fun _ => writing_ofScope _

theorem writing_findFunction (name : String) (arity : Nat) :
    Writing (findFunction locals name arity) :=
  writing_get fun _ => writing_ofScope _

theorem writing_requireBoolean (value : Value) : Writing (requireBoolean value) := by
  unfold requireBoolean
  split
  · exact writing_pure _
  · exact writing_throw _

theorem writing_requireList (name : String) (slot : Slot) : Writing (requireList name slot) := by
  unfold requireList
  split
  · exact writing_pure _
  · exact writing_throw _

theorem writing_requireOffset (handle : Nat) (value : Value) :
    Writing (requireOffset handle value) := by
  unfold requireOffset
  split
  · exact writing_get fun _ => writing_ite (writing_pure _) (writing_throw _)
  · exact writing_throw _

theorem writing_applyToValues (symbol : String) (left right : Value) :
    Writing (applyToValues symbol left right) := by
  apply writing_get
  intro world
  -- a refusal, a result that is too great, or a result
  rcases applySymbol symbol (world.datum left) (world.datum right) with ⟨_ | _⟩ | _
  · exact writing_throw _
  · exact writing_throw _
  · exact writing_pure _

theorem writing_readItem (handle index : Nat) : Writing (readItem handle index) :=
  writing_get fun _ => writing_pure _

theorem writing_writeItem (handle index : Nat) (value : Value) :
    Writing (writeItem handle index value) :=
  writing_modify fun _ => .heap _

theorem writing_allocate (items : List Value) : Writing (allocate items) :=
  fun _ => .single (.heap _)

theorem writing_print (argument : Value) :
    Writing (modify fun world =>
      { world with transcript := world.transcript.print (world.textOf argument) }) :=
  writing_modify fun _ => .event _

theorem writing_define (name : String) (slot : Slot) : Writing (define locals name slot) := by
  cases locals with
  | cons inner outer => exact writing_bind (writing_ofScope _) fun _ => writing_pure _
  | nil =>
    intro world
    rw [define, Scoped.get_bind_apply]
    cases h : world.top.defineVariable name slot with
    | error e => exact .refl
    | ok top => exact .single (.define h)

theorem writing_assign (name : String) (value : Value) : Writing (assign locals name value) := by
  apply writing_ite (writing_pure _)
  exact writing_bind (writing_modify fun _ => .assign name value) fun _ => writing_pure _

end Run

end BlockScript

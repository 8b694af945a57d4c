import BlockScript.Proofs.Watched.Fits
import BlockScript.Proofs.Watched.World
import Mathlib.Data.List.Forall2
/-!
# What is wanted at every point of a run

Two things are wanted whenever something happens in a run of an accepted program: that all values
fit the types that the analysis found for them, and that all names mean what the analysis found that
they mean.

## Main definitions

* `Watched.Point.Typed` — values fit their types
* `Watched.Point.Bound` — names mean what they are annotated with
-/

namespace BlockScript

namespace Node

/-- The binding that a node is annotated with. -/
def binding? : Node → Option Binding
  | access _ _ _ binding => binding
  | declaration _ _ _ binding => binding
  | global _ _ _ _ _ binding => binding
  | _ => none

/-- The signature of the function that a call is annotated with. -/
def callee? : Node → Option Signature
  | call _ _ _ callee => callee
  | _ => none

end Node

namespace Watched

/-- The variables of several frames. -/
def slotsOf (frames : List Frame) : List Slot :=
  frames.flatMap fun frame => frame.vars.map Prod.snd

/-- The variable holds what the type of its binding says: a value that fits the type, or a list of
such values. -/
def Slot.Fits (heap : Array (List Value)) (slot : Slot) : Prop :=
  ∃ binding ty, slot.origin = some binding ∧ binding.type = some ty ∧
    if binding.isList = true then
      ∃ handle items, slot.value = .list handle ∧ heap[handle]? = some items ∧
        ∀ item ∈ items, item.Fits ty
    else slot.value.Fits ty

/-- The routine is the function of a signature: `print`, or one of the given functions. -/
def Routine.Is (functions : List Node) (f : Signature) : Routine → Prop
  | .print => f = .print
  | .defined name parameters body signature _ =>
    signature = some f ∧ ∃ parameterTypes resultType,
      .function name parameters parameterTypes resultType body (some f) ∈ functions

namespace Point

/-- The variables that can be seen from the place of a point. -/
def visible (point : Point) : List Slot :=
  slotsOf (point.place.locals ++ [point.top])

/-- All variables that are there, those of functions that wait for a call to end included. -/
def slots (point : Point) : List Slot :=
  point.visible ++ slotsOf point.place.callers.flatten

/-- Values fit their types. -/
structure Typed (point : Point) : Prop where
  /-- An expression that is no list literal has a value of its type. -/
  evaluated : ∀ node value, point.event = .evaluated node value →
    node.kind? = some .listLiteral ∨ ∃ ty, node.type? = some ty ∧ value.Fits ty
  /-- Every variable holds what its type says. -/
  fits : ∀ slot ∈ point.slots, slot.Fits point.heap
  /-- Values are refused only with an excuse. -/
  refused : ∀ node e, point.event = .refused node (.error e) → Excuse node e

/-- Names mean what they are annotated with. -/
structure Bound (functions : List Node) (point : Point) : Prop where
  /-- A use of a variable finds one that can be seen and was made by the node of its binding. -/
  resolved : ∀ node slot, point.event = .resolved node slot → slot ∈ point.visible ∧
    ∃ binding, node.binding? = some binding ∧ slot.origin = some binding
  /-- A call finds the function that it is annotated with. -/
  invoked : ∀ node routine, point.event = .invoked node routine →
    ∃ f, node.callee? = some f ∧ routine.Is functions f
  /-- No two variables that can be seen were made by the same node. -/
  distinct : (point.visible.map Slot.origin).Nodup
  /-- What can be seen of local variables was made in the entries that are still open. -/
  entries : List.Forall₂ (fun entry frame => ∀ slot ∈ slotsOf [frame], slot.entry = entry)
    (point.place.entries ++ [0]) (point.place.locals ++ [point.top])
  /-- No two open entries are the same. -/
  nodup : (point.place.entries ++ [0]).Nodup

end Point

end Watched

end BlockScript

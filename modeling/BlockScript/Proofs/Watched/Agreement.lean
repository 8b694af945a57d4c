import BlockScript.Proofs.Analysis.Growth
import BlockScript.Proofs.Scope
import BlockScript.Proofs.Watched.Interpreter
import BlockScript.Proofs.Watched.Point
/-!
# Agreement between the analysis and a run

What a run has at some moment agrees with what the analysis knew about the place that is being
executed: frame by frame the variables have the names of the static table in the same order, were
made by the nodes of their bindings, and hold what these say; lists have items of one type; and
functions are the ones that were declared. The type of a function's result stands in the tables only
and has no counterpart.

## Main definitions

* `Watched.Context` — what stays the same while expressions and statements are executed
* `Watched.VarsAgree`, `Watched.LocalsAgree` — variables of one frame, and local frames
* `Watched.HeapAgrees`, `Watched.FunsAgree` — lists and functions

## Main results

* `Watched.VarsAgree.lookup`, `Watched.LocalsAgree.findVariable?` — look-ups find what the analysis
  found
* `Watched.VarsAgree.define`, `Watched.VarsAgree.update` — declarations and assignments
-/

namespace BlockScript

/-- Look-ups that agree in the inner frames and in the outer ones agree in all. -/
theorem rel_or {α β : Type} {r : α → β → Prop} {a c : Option α} {b d : Option β}
    (h : Option.Rel r a b) (h' : Option.Rel r c d) : Option.Rel r (a.or c) (b.or d) := by
  cases h with
  | some hr => exact .some hr
  | none => exact h'

namespace Watched

/-- What stays the same while expressions and statements are executed. -/
structure Context where
  /-- The static table of the top level. -/
  globals : StaticFrame
  /-- The functions of the program. -/
  functions : List Node
  /-- The types of the items of the lists, by handle. -/
  elements : List Ty

/-! ### Variables -/

/-- What a variable with a certain binding can hold, for given types of the items of lists. -/
inductive Holds (elements : List Ty) (binding : Binding) : Value → Prop
  | value {ty value} : binding.isList = false → binding.type = some ty → value.Fits ty →
      Holds elements binding value
  | list {ty handle} : binding.isList = true → binding.type = some ty →
      elements[handle]? = some ty → Holds elements binding (.list handle)

theorem Holds.mono {elements more : List Ty} {binding : Binding} {value : Value}
    (h : Holds elements binding value) : Holds (elements ++ more) binding value := by
  cases h with
  | value hlist hty hfits => exact .value hlist hty hfits
  | list hlist hty helement =>
    refine .list hlist hty ?_
    rw [List.getElem?_append_left (List.getElem?_eq_some_iff.mp helement).1]
    exact helement

/-- A variable was made by the node of a binding, in a certain entry, and holds what the binding
says. -/
structure Slot.Agrees (elements : List Ty) (entry : Nat) (binding : Binding) (slot : Slot) :
    Prop where
  origin : slot.origin = some binding
  mutable : slot.mutable = binding.mutable
  entry : slot.entry = entry
  holds : Holds elements binding slot.value

/-- Variables of one frame agree with bindings one by one. The type of a function's result has no
counterpart. -/
inductive VarsAgree (elements : List Ty) (entry : Nat) :
    List (String × Binding) → List (String × Slot) → Prop
  | nil : VarsAgree elements entry [] []
  | result {binding statics slots} : VarsAgree elements entry statics slots →
      VarsAgree elements entry ((returnName, binding) :: statics) slots
  | cons {name binding slot statics slots} : name ≠ returnName →
      (∀ other ∈ statics, other.1 ≠ name) → slot.Agrees elements entry binding →
      VarsAgree elements entry statics slots →
      VarsAgree elements entry ((name, binding) :: statics) ((name, slot) :: slots)

namespace VarsAgree

variable {elements : List Ty} {entry : Nat} {statics : List (String × Binding)}
  {slots : List (String × Slot)} {name : String} {binding : Binding} {slot : Slot}

theorem fst_mem (h : VarsAgree elements entry statics slots) :
    ∀ named ∈ slots, ∃ static ∈ statics, static.1 = named.1 := by
  induction h with
  | nil => simp
  | result _ ih =>
    intro named hmem
    obtain ⟨static, hstatic, hname⟩ := ih named hmem
    exact ⟨static, List.mem_cons_of_mem _ hstatic, hname⟩
  | cons _ _ _ _ ih =>
    intro named hmem
    rcases List.mem_cons.mp hmem with rfl | hmem
    · exact ⟨_, List.mem_cons_self, rfl⟩
    · obtain ⟨static, hstatic, hname⟩ := ih named hmem
      exact ⟨static, List.mem_cons_of_mem _ hstatic, hname⟩

theorem exists_binding (h : VarsAgree elements entry statics slots) :
    ∀ named ∈ slots, ∃ binding, named.2.Agrees elements entry binding := by
  induction h with
  | nil => simp
  | result _ ih => exact ih
  | cons _ _ hslot _ ih => exact List.forall_mem_cons.mpr ⟨⟨_, hslot⟩, ih⟩

/-- A declaration puts a binding and its variable behind the others. -/
theorem append (h : VarsAgree elements entry statics slots) (hname : name ≠ returnName)
    (hnew : statics.lookup name = none) (hslot : slot.Agrees elements entry binding) :
    VarsAgree elements entry (statics ++ [(name, binding)]) (slots ++ [(name, slot)]) := by
  induction h with
  | nil => exact .cons hname (by simp) hslot .nil
  | result _ ih =>
    -- the name is another one than that of the result, whose entry is passed over
    rw [List.lookup_cons] at hnew
    split at hnew
    · cases hnew
    · exact .result (ih hnew)
  | @cons own _ _ _ _ hown hdistinct hold _ ih =>
    rw [List.lookup_cons] at hnew
    split at hnew
    · cases hnew
    next hne =>
      refine .cons hown ?_ hold (ih hnew)
      intro other hmem
      rcases List.mem_append.mp hmem with hmem | hmem
      · exact hdistinct other hmem
      · obtain rfl := List.mem_singleton.mp hmem
        simpa using hne

/-- A name is there just if it has a binding, and then the two agree. -/
theorem lookup (h : VarsAgree elements entry statics slots) (hname : name ≠ returnName) :
    Option.Rel (fun binding slot => ∃ entry, slot.Agrees elements entry binding)
      (statics.lookup name) (slots.lookup name) := by
  induction h with
  | nil => exact .none
  | result _ ih =>
    rw [List.lookup_cons, beq_false_of_ne hname]
    exact ih
  | @cons own _ _ _ _ _ _ hslot _ ih =>
    rw [List.lookup_cons, List.lookup_cons]
    cases name == own with
    -- the first entry with the name decides on both sides
    | true => exact .some ⟨entry, hslot⟩
    | false => exact ih

/-- A frame takes a variable whose name is new in the table. -/
theorem define {frame : Frame} (h : VarsAgree elements entry statics frame.vars)
    (hname : name ≠ returnName) (hnew : statics.lookup name = none)
    (hslot : slot.Agrees elements entry binding) :
    ∃ after, frame.defineVariable name slot = .ok after ∧ after.funs = frame.funs ∧
      VarsAgree elements entry (statics ++ [(name, binding)]) after.vars := by
  -- the frame has no variable of the name either
  have hrel := h.lookup hname
  rw [hnew] at hrel
  generalize hfound : frame.vars.lookup name = found at hrel
  cases hrel with
  | none =>
    exact ⟨_, Frame.defineVariable_eq_ok_iff.mpr ⟨hfound, rfl⟩, rfl, h.append hname hnew hslot⟩

/-- An assignment to a variable that can hold the value. -/
theorem update {value : Value} (h : VarsAgree elements entry statics slots)
    (hname : name ≠ returnName) (hfound : statics.lookup name = some binding)
    (hholds : Holds elements binding value) :
    VarsAgree elements entry statics (slots.map fun named =>
      if named.1 = name then (named.1, { named.2 with value }) else named) := by
  induction h with
  | nil => exact .nil
  | result _ ih =>
    rw [List.lookup_cons, beq_false_of_ne hname] at hfound
    exact .result (ih hfound)
  | @cons own _ slot _ slots hown hdistinct hslot h ih =>
    rw [List.lookup_cons] at hfound
    rw [List.map_cons]
    by_cases hequal : name = own
    · subst hequal
      rw [beq_self_eq_true] at hfound
      cases hfound
      -- no other variable of the frame has the name
      have hrest : slots.map (fun named =>
          if named.1 = name then (named.1, { named.2 with value }) else named) = slots := by
        rw [List.map_congr_left (g := id), List.map_id]
        intro named hmem
        obtain ⟨static, hstatic, hsame⟩ := h.fst_mem named hmem
        rw [if_neg fun heq => hdistinct static hstatic (hsame.trans heq), id]
      rw [hrest, if_pos rfl]
      exact .cons hown hdistinct ⟨hslot.origin, hslot.mutable, hslot.entry, hholds⟩ h
    · rw [beq_false_of_ne hequal] at hfound
      rw [if_neg (Ne.symm hequal)]
      exact .cons hown hdistinct hslot (ih hfound)

theorem mono {more : List Ty} (h : VarsAgree elements entry statics slots) :
    VarsAgree (elements ++ more) entry statics slots := by
  induction h with
  | nil => exact .nil
  | result _ ih => exact .result ih
  | cons hname hdistinct hslot _ ih =>
    exact .cons hname hdistinct ⟨hslot.origin, hslot.mutable, hslot.entry, hslot.holds.mono⟩ ih

/-- The variables were made by the nodes of the bindings, in the same order. -/
theorem origins_sublist (h : VarsAgree elements entry statics slots) :
    (slots.map fun named => named.2.origin).Sublist (statics.map fun static => some static.2) := by
  induction h with
  | nil => exact .slnil
  | result _ ih => exact ih.cons _
  | cons _ _ hslot _ ih =>
    rw [List.map_cons, List.map_cons, hslot.origin]
    exact ih.cons_cons _

theorem entry_eq {frame : Frame} (h : VarsAgree elements entry statics frame.vars) :
    ∀ slot ∈ slotsOf [frame], slot.entry = entry := by
  intro slot hmem
  rw [slotsOf, List.flatMap_singleton] at hmem
  obtain ⟨named, hnamed, rfl⟩ := List.mem_map.mp hmem
  obtain ⟨binding, hagrees⟩ := h.exists_binding named hnamed
  exact hagrees.entry

end VarsAgree

/-- Local frames agree with static tables one by one. Blocks and functions define no functions. -/
inductive LocalsAgree (elements : List Ty) : List StaticFrame → List Nat → Chain → Prop
  | nil : LocalsAgree elements [] [] []
  | cons {static entry frame statics entries locals} : static.funs = [] → frame.funs = [] →
      VarsAgree elements entry static.vars frame.vars →
      LocalsAgree elements statics entries locals →
      LocalsAgree elements (static :: statics) (entry :: entries) (frame :: locals)

namespace LocalsAgree

variable {elements : List Ty} {statics : List StaticFrame} {entries : List Nat} {locals : Chain}
  {name : String} {binding : Binding} {slot : Slot}

theorem findVariable? (h : LocalsAgree elements statics entries locals)
    (hname : name ≠ returnName) :
    Option.Rel (fun binding slot => ∃ entry, slot.Agrees elements entry binding)
      (Chain.findVariable? statics name) (Chain.findVariable? locals name) := by
  induction h with
  | nil => exact .none
  | cons _ _ hvars _ ih =>
    rw [Chain.findVariable?_cons, Chain.findVariable?_cons]
    exact rel_or (hvars.lookup hname) ih

theorem update {value : Value} (h : LocalsAgree elements statics entries locals)
    (hname : name ≠ returnName) (hfound : Chain.findVariable? statics name = some binding)
    (hholds : Holds elements binding value) :
    LocalsAgree elements statics entries
      (Chain.updateVariable name (fun slot => { slot with value }) locals) := by
  induction h with
  | nil => exact .nil
  | @cons static entry frame _ _ _ hstatic hframe hvars hlocals ih =>
    have hlookup : Option.Rel _ (static.findVariable? name) (frame.findVariable? name) :=
      hvars.lookup hname
    rw [Chain.findVariable?_cons] at hfound
    rw [Chain.updateVariable]
    -- the variable is changed in the first frame that has it, which is the same on both sides
    generalize hown : static.findVariable? name = own at hfound hlookup
    generalize frame.findVariable? name = found at hlookup
    cases hlookup with
    | some _ =>
      cases hfound
      exact .cons hstatic hframe (hvars.update hname hown hholds) hlocals
    | none => exact .cons hstatic hframe hvars (ih hfound)

theorem findFunction?_eq_none (h : LocalsAgree elements statics entries locals) {arity : Nat} :
    Chain.findFunction? statics name arity = none ∧
      Chain.findFunction? locals name arity = none := by
  induction h with
  | nil => exact ⟨rfl, rfl⟩
  | cons hstatic hframe _ _ ih =>
    rw [Chain.findFunction?_cons, Chain.findFunction?_cons, Frame.findFunction?,
      Frame.findFunction?, hstatic, hframe]
    exact ih

end LocalsAgree

/-! ### Lists -/

/-- The lists have items of the given types. -/
structure HeapAgrees (elements : List Ty) (heap : Array (List Value)) : Prop where
  size_eq : heap.size = elements.length
  fits : ∀ (handle : Nat) (ty : Ty) (items : List Value), elements[handle]? = some ty →
    heap[handle]? = some items → ∀ item ∈ items, item.Fits ty

namespace HeapAgrees

variable {elements : List Ty} {heap : Array (List Value)} {handle index : Nat} {ty : Ty}

theorem exists_items (h : HeapAgrees elements heap) (helement : elements[handle]? = some ty) :
    ∃ items, heap[handle]? = some items ∧ ∀ item ∈ items, item.Fits ty := by
  have hlt : handle < heap.size := by
    rw [h.size_eq]
    exact (List.getElem?_eq_some_iff.mp helement).1
  exact ⟨heap[handle], Array.getElem?_eq_getElem hlt,
    h.fits handle ty _ helement (Array.getElem?_eq_getElem hlt)⟩

/-- A value that fits the type of the items is put in place of an item. -/
theorem modify (h : HeapAgrees elements heap) {value : Value}
    (helement : elements[handle]? = some ty) (hvalue : value.Fits ty) :
    HeapAgrees elements (heap.modify handle fun items => items.set index value) := by
  refine ⟨by rw [Array.size_modify, h.size_eq], ?_⟩
  intro other otherTy items hother hitems
  rw [Array.getElem?_modify] at hitems
  split at hitems
  next heq =>
    subst heq
    -- the list that was changed
    obtain ⟨old, hold, rfl⟩ := Option.map_eq_some_iff.mp hitems
    obtain rfl := Option.some.inj (helement.symm.trans hother)
    intro item hmem
    rcases List.mem_or_eq_of_mem_set hmem with hmem | rfl
    · exact h.fits handle _ old helement hold item hmem
    · exact hvalue
  next => exact h.fits other otherTy items hother hitems

/-- A new list whose items fit a type. -/
theorem push (h : HeapAgrees elements heap) {items : List Value}
    (hitems : ∀ item ∈ items, item.Fits ty) :
    HeapAgrees (elements ++ [ty]) (heap.push items) := by
  refine ⟨by simp [h.size_eq], ?_⟩
  intro other otherTy found hother hfound
  rw [Array.getElem?_push] at hfound
  split at hfound
  next heq =>
    cases hfound
    rw [heq, h.size_eq, List.getElem?_concat_length] at hother
    cases hother
    exact hitems
  next hne =>
    have hlt : other < elements.length := by
      rw [← h.size_eq]
      exact (Array.getElem?_eq_some_iff.mp hfound).1
    rw [List.getElem?_append_left hlt] at hother
    exact h.fits other otherTy found hother hfound

end HeapAgrees

/-! ### Functions -/

/-- A function is `print`, or a function of the program whose body is well typed at the top
level. -/
inductive Routine.Agrees (context : Context) : Signature → Routine → Prop
  | print : Routine.Agrees context .print .print
  | defined {tables behind f name parameters types resultType body bindings} :
      tables.chain = [context.globals, Tables.builtins] → tables.WellNumbered →
      TypedBody tables f parameters bindings body behind →
      .function name parameters types resultType body (some f) ∈ context.functions →
      Routine.Agrees context f (.defined name parameters body (some f) bindings)

theorem Routine.Agrees.is {context : Context} {f : Signature} {routine : Routine}
    (h : Routine.Agrees context f routine) : routine.Is context.functions f := by
  cases h with
  | print => rfl
  | defined _ _ _ hmem => exact ⟨rfl, _, _, hmem⟩

/-- Functions agree with signatures one by one. -/
def FunsAgree (context : Context) (signatures : List ((String × Nat) × Signature))
    (routines : List ((String × Nat) × Routine)) : Prop :=
  List.Forall₂ (fun signature routine => signature.1 = routine.1 ∧
    routine.2.Agrees context signature.2) signatures routines

namespace FunsAgree

variable {context : Context} {signatures : List ((String × Nat) × Signature)}
  {routines : List ((String × Nat) × Routine)} {key : String × Nat}

theorem lookup (h : FunsAgree context signatures routines) :
    Option.Rel (fun f routine => routine.Agrees context f) (signatures.lookup key)
      (routines.lookup key) := by
  induction h with
  | nil => exact .none
  | @cons signature routine _ _ hagrees _ ih =>
    obtain ⟨own, f⟩ := signature
    obtain ⟨own', routine⟩ := routine
    obtain ⟨rfl, hroutine⟩ := hagrees
    rw [List.lookup_cons, List.lookup_cons]
    cases key == own with
    | true => exact .some hroutine
    | false => exact ih

/-- A frame takes a function whose name and arity are new in the table. -/
theorem define {frame : Frame} {f : Signature} {routine : Routine} {name : String} {arity : Nat}
    (h : FunsAgree context signatures frame.funs) (hnew : signatures.lookup (name, arity) = none)
    (hroutine : routine.Agrees context f) :
    ∃ after, frame.defineFunction name arity routine = .ok after ∧ after.vars = frame.vars ∧
      FunsAgree context (signatures ++ [((name, arity), f)]) after.funs := by
  have hrel : Option.Rel _ (signatures.lookup (name, arity)) (frame.funs.lookup (name, arity)) :=
    h.lookup
  rw [hnew] at hrel
  generalize hfound : frame.funs.lookup (name, arity) = found at hrel
  cases hrel with
  | none =>
    exact ⟨_, Frame.defineFunction_eq_ok_iff.mpr ⟨hfound, rfl⟩, rfl,
      List.rel_append h (.cons ⟨rfl, hroutine⟩ .nil)⟩

end FunsAgree

end Watched

end BlockScript

import BlockScript.Proofs.Watched.Invariant
/-!
# Safe computations

A computation is safe if it keeps the invariant of a run, whatever the state is that it starts
from, and if it fails at most for lack of fuel, because of a decimal that is too great, or because a
value was refused with an excuse. Entries that were open before it are not opened again.

## Main definitions

* `Watched.Foreseen`, `Watched.Stops` — failures that accepted programs can have
* `Watched.Triple`, `Watched.Safe` — what a computation keeps and results in

## Main results

* `Watched.Safe.bind`, `Watched.safe_perform`, `Watched.safe_withEntry` — how safe computations are
  made
* `Watched.safe_findVariable`, `Watched.safe_assign`, `Watched.safe_declare` — variables
-/

namespace BlockScript

namespace Watched

open BlockScript.Watched.Run

variable {α β : Type}

/-- A failure that an accepted program can have: the fuel is used up, a decimal is too great, or a
value was refused, which is the last thing that happened. -/
def Foreseen (failure : Failure) (world : World) : Prop :=
  failure = .outOfFuel ∨ failure = .overflow ∨
    ∃ e node, failure = .error e ∧ world.points.head?.map Point.event = some (.refused node failure)

/-- A failure was foreseen, and until then nothing unwanted has happened. -/
structure Stops (functions : List Node) (failure : Failure) (world : World) : Prop where
  foreseen : Foreseen failure world
  typed : ∀ point ∈ world.points, point.Typed
  bound : ∀ point ∈ world.points, point.Bound functions

/-- From states with `P`, a computation ends with `Q`, or it fails with `R`. -/
def Triple (R : Failure → World → Prop) (P : World → Prop) (x : Run α) (Q : α → World → Prop) :
    Prop :=
  ∀ world, P world →
    match x world with
    | .ok a after => Q a after
    | .error failure after => R failure after

theorem Triple.bind {R : Failure → World → Prop} {P : World → Prop} {Q : α → World → Prop}
    {S : β → World → Prop} {x : Run α} {next : α → Run β} (h : Triple R P x Q)
    (hnext : ∀ a, Triple R (Q a) (next a) S) : Triple R P (x >>= next) S := by
  intro world hworld
  have hx := h world hworld
  rw [bind_apply]
  cases hresult : x world with
  | ok a after =>
    rw [hresult] at hx
    exact hnext a after hx
  | error failure after =>
    rw [hresult] at hx
    exact hx

theorem Triple.mono {R R' : Failure → World → Prop} {P : World → Prop}
    {Q Q' : α → World → Prop} {x : Run α} (h : Triple R P x Q)
    (hresult : ∀ a world, Q a world → Q' a world)
    (hfailure : ∀ failure world, R failure world → R' failure world) : Triple R' P x Q' := by
  intro world hworld
  have hx := h world hworld
  cases hrun : x world with
  | ok a after =>
    rw [hrun] at hx
    exact hresult a after hx
  | error failure after =>
    rw [hrun] at hx
    exact hfailure failure after hx

/-- A computation keeps the invariant, and the entries up to `bound` stay used up. -/
def Safe (context : Context) (bound : Nat) (x : Run α) (Q : α → Prop) : Prop :=
  Triple (Stops context.functions) (fun world => world.Agrees context ∧ bound ≤ world.next) x
    fun a world => (world.Agrees context ∧ bound ≤ world.next) ∧ Q a

section

variable {context : Context} {bound : Nat} {tables : Tables} {place : Place} {node : Node}

theorem safe_pure {a : α} {Q : α → Prop} (h : Q a) : Safe context bound (pure a) Q :=
  fun _ hworld => ⟨hworld, h⟩

theorem Safe.bind {x : Run α} {next : α → Run β} {P : α → Prop} {Q : β → Prop}
    (h : Safe context bound x P) (hnext : ∀ a, P a → Safe context bound (next a) Q) :
    Safe context bound (x >>= next) Q :=
  Triple.bind h fun a world hworld => hnext a hworld.2 world hworld.1

theorem Safe.mono {x : Run α} {P Q : α → Prop} (h : Safe context bound x P)
    (himp : ∀ a, P a → Q a) : Safe context bound x Q := by
  -- a computation followed by nothing is the computation itself
  rw [← bind_pure x]
  exact h.bind fun a ha => safe_pure (himp a ha)

theorem safe_outOfFuel {Q : α → Prop} : Safe context bound (throw .outOfFuel : Run α) Q :=
  fun _ hworld => ⟨.inl rfl, hworld.1.typed, hworld.1.bound⟩

theorem safe_ite {p : Prop} [Decidable p] {x y : Run α} {Q : α → Prop}
    (h : p → Safe context bound x Q) (h' : ¬p → Safe context bound y Q) :
    Safe context bound (if p then x else y) Q := by
  by_cases hp : p
  · rw [if_pos hp]
    exact h hp
  · rw [if_neg hp]
    exact h' hp

theorem safe_get {next : World → Run α} {Q : α → Prop}
    (h : ∀ world, world.Agrees context → Safe context bound (next world) Q) :
    Safe context bound (get >>= next) Q :=
  fun world hworld => h world hworld.1 world hworld

theorem safe_report (hplace : place.Agrees context bound tables) {event : Event}
    (hfine : ∀ visible, event.Fine context visible) :
    Safe context bound (report place event) fun _ => True :=
  fun _ hworld => ⟨⟨hworld.1.see hplace (hfine _), hworld.2⟩, trivial⟩

theorem safe_changed (hplace : place.Agrees context bound tables) :
    Safe context bound (report place .changed) fun _ => True :=
  safe_report hplace fun _ => trivial

theorem safe_note {level : Int} {text : BlockScript.World → String} :
    Safe context bound (note level text) fun _ => True :=
  fun _ hworld => ⟨⟨⟨hworld.1.vars, hworld.1.funs, hworld.1.heap, hworld.1.typed, hworld.1.bound⟩,
    hworld.2⟩, trivial⟩

/-- A new entry is different from those before it. -/
theorem safe_withEntry {next : Nat → Run α} {Q : α → Prop}
    (h : ∀ entry, bound ≤ entry → Safe context (entry + 1) (next entry) Q) :
    Safe context bound (withEntry next) Q := by
  intro world hworld
  have hagrees : World.Agrees context { world with next := world.next + 1 } :=
    ⟨hworld.1.vars, hworld.1.funs, hworld.1.heap, hworld.1.typed, hworld.1.bound⟩
  have hnext := h world.next hworld.2 _ ⟨hagrees, Nat.le_refl _⟩
  have hresult : withEntry next world = next world.next { world with next := world.next + 1 } :=
    rfl
  rw [hresult]
  -- the entries up to the new one stay used up, and so do those before
  generalize next world.next { world with next := world.next + 1 } = result at hnext ⊢
  cases result with
  | ok a after => exact ⟨⟨hnext.1.1, Nat.le_trans hworld.2 (Nat.le_of_succ_le hnext.1.2)⟩, hnext.2⟩
  | error failure after => exact hnext

theorem safe_evaluating (hplace : place.Agrees context bound tables) {x : Run Value} {ty : Ty}
    (htype : node.type? = some ty) (h : Safe context bound x fun value => value.Fits ty) :
    Safe context bound (evaluating place node x) fun value => value.Fits ty := by
  apply h.bind
  intro value hvalue
  have hfine : ∀ visible, Event.Fine context visible (.evaluated node value) :=
    fun _ => .inr ⟨ty, htype, hvalue⟩
  apply (safe_report hplace hfine).bind
  intro _ _
  exact safe_pure hvalue

/-! ### Values and lists -/

/-- A computation leaves lists with items of their types, and fails at most with an excuse or
because a decimal is too great. -/
def Performs (elements : List Ty) (node : Node) (x : BlockScript.Run α) (Q : α → Prop) : Prop :=
  ∀ world, HeapAgrees elements world.heap →
    match x world with
    | .ok a after => HeapAgrees elements after.heap ∧ Q a
    | .error failure after => HeapAgrees elements after.heap ∧
      (failure = .overflow ∨ ∃ e, failure = .error e ∧ Excuse node e)

theorem safe_perform (hplace : place.Agrees context bound tables) {x : BlockScript.Run α}
    {Q : α → Prop} (h : Performs context.elements node x Q) :
    Safe context bound (perform place node x) Q := by
  intro world hworld
  have hx := h world.erase hworld.1.heap
  have hkeep : ∀ after : BlockScript.World, HeapAgrees context.elements after.heap →
      (world.keep after).Agrees context := fun after hafter =>
    ⟨hworld.1.vars, hworld.1.funs, hafter, hworld.1.typed, hworld.1.bound⟩
  unfold perform
  cases hresult : x world.erase with
  | ok a after =>
    rw [hresult] at hx
    exact ⟨⟨hkeep after hx.1, hworld.2⟩, hx.2⟩
  | error failure after =>
    rw [hresult] at hx
    -- the failure is reported, and its excuse makes the report fine
    have hfine : Event.Fine context (slotsOf (place.locals ++ [(world.keep after).top]))
        (.refused node failure) := by
      rintro e rfl
      rcases hx.2 with h | ⟨e', h, hexcuse⟩
      · cases h
      · cases h
        exact hexcuse
    have hseen := (hkeep after hx.1).see hplace hfine
    refine ⟨?_, hseen.typed, hseen.bound⟩
    rcases hx.2 with rfl | ⟨e, rfl, -⟩
    · exact .inr (.inl rfl)
    · exact .inr (.inr ⟨e, node, rfl, rfl⟩)

section

variable {elements : List Ty} {handle index : Nat} {ty : Ty} {value : Value}

theorem performs_pure {a : α} {Q : α → Prop} (h : Q a) : Performs elements node (pure a) Q :=
  fun _ hheap => ⟨hheap, h⟩

theorem performs_refuse {e : EvaluationError} {Q : α → Prop} (h : Excuse node e) :
    Performs elements node (BlockScript.Run.refuse e) Q :=
  fun _ hheap => ⟨hheap, .inr ⟨e, rfl, h⟩⟩

theorem performs_get {next : BlockScript.World → BlockScript.Run α} {Q : α → Prop}
    (h : ∀ world, Performs elements node (next world) Q) :
    Performs elements node (get >>= next) Q :=
  fun world hheap => h world world hheap

theorem performs_requireBoolean (h : value.Fits .boolean) :
    Performs elements node (BlockScript.Run.requireBoolean value) fun _ => True := by
  obtain ⟨scalar, rfl⟩ := h.exists_scalar
  rcases h.boolean with rfl | ⟨b, rfl⟩
  · exact performs_refuse .notBoolean
  · exact performs_pure trivial

theorem performs_requireList {name : String} {slot : BlockScript.Slot}
    (h : slot.value = .list handle) :
    Performs elements node (BlockScript.Run.requireList name slot) fun found => found = handle := by
  unfold BlockScript.Run.requireList
  rw [h]
  exact performs_pure rfl

theorem performs_requireOffset (h : value.Fits .integer) :
    Performs elements node (BlockScript.Run.requireOffset handle value) fun _ => True := by
  obtain ⟨scalar, rfl⟩ := h.exists_scalar
  rcases h.integer with rfl | ⟨n, rfl⟩
  · exact performs_refuse .offsetNotInteger
  · apply performs_get
    intro world
    -- an integer out of range is excused by itself
    by_cases hrange : 0 ≤ n ∧ n < (world.items handle).length
    · rw [if_pos hrange]
      exact performs_pure trivial
    · rw [if_neg hrange]
      exact performs_refuse .offsetOutOfRange

theorem performs_readItem (helement : elements[handle]? = some ty) :
    Performs elements node (BlockScript.Run.readItem handle index)
      fun value => value.Fits ty := by
  intro world hheap
  refine ⟨hheap, ?_⟩
  obtain ⟨items, hitems, hfits⟩ := hheap.exists_items helement
  rw [World.items, hitems, Option.getD_some]
  cases hitem : items[index]? with
  | none => exact Value.Fits.nil
  | some item => exact hfits item (List.mem_of_getElem? hitem)

theorem performs_writeItem (helement : elements[handle]? = some ty) (hvalue : value.Fits ty) :
    Performs elements node (BlockScript.Run.writeItem handle index value) fun _ => True :=
  fun _ hheap => ⟨hheap.modify helement hvalue, trivial⟩

theorem performs_print {text : BlockScript.World → String} :
    Performs elements node
      (modify fun world => { world with transcript := world.transcript.print (text world) })
      fun _ => True :=
  fun _ hheap => ⟨hheap, trivial⟩

theorem performs_applyToValues {op : Operator} {left right : Node} {type : Option Ty} {a b : Ty}
    {first second : Value} (hand : op ≠ .and) (hor : op ≠ .or)
    (hty : op.resultTy (some a) (some b) = .ok ty) (htype : left.type? = some a)
    (hfirst : first.Fits a) (hsecond : second.Fits b) :
    Performs elements (.binary op.text left right type) (applyToValues op.text first second)
      fun value => value.Fits ty := by
  obtain ⟨first, rfl⟩ := hfirst.exists_scalar
  obtain ⟨second, rfl⟩ := hsecond.exists_scalar
  have hallowed : Operator.Allowed (.binary op.text left right type) ty _ :=
    Operator.allowed_apply hand hor hty htype hfirst hsecond
  apply performs_get
  intro world
  rw [World.datum_scalar, World.datum_scalar, applySymbol, Operator.ofText?_text]
  simp only
  generalize op.apply (.scalar first) (.scalar second) = outcome at hallowed ⊢
  rcases outcome with ⟨e | _⟩ | result
  · exact performs_refuse hallowed
  · exact fun _ hheap => ⟨hheap, .inl rfl⟩
  · exact performs_pure hallowed

end

/-! ### Variables and functions -/

/-- A name means at a place what it means in the static tables of that place. -/
theorem Place.Agrees.findVariable? (hplace : place.Agrees context bound tables) {world : World}
    (hworld : world.Agrees context) {name : String} (hname : name ≠ returnName) :
    Option.Rel (fun binding slot => ∃ entry, slot.Agrees context.elements entry binding)
      (Chain.findVariable? tables.chain name)
      (Chain.findVariable? (place.locals ++ world.outerChain) name) := by
  obtain ⟨statics, hchain, hlocals⟩ := hplace.locals
  rw [hchain, World.outerChain, Chain.findVariable?_append, Chain.findVariable?_append]
  simp only [Chain.findVariable?_cons]
  exact rel_or (hlocals.findVariable? hname)
    (rel_or (hworld.vars.lookup hname) (rel_or .none .none))

/-- The same for names of functions. -/
theorem Place.Agrees.findFunction? (hplace : place.Agrees context bound tables) {world : World}
    (hworld : world.Agrees context) {name : String} {arity : Nat} :
    Option.Rel (fun f routine => routine.Agrees context f)
      (Chain.findFunction? tables.chain name arity)
      (Chain.findFunction? (place.locals ++ world.outerChain) name arity) := by
  obtain ⟨statics, hchain, hlocals⟩ := hplace.locals
  obtain ⟨hstatics, hframes⟩ := hlocals.findFunction?_eq_none
  -- local frames have no functions, so the top frame and the one around it are left
  have hbuiltins : FunsAgree context Tables.builtins.funs World.builtins.funs :=
    .cons ⟨rfl, .print⟩ .nil
  rw [hchain, World.outerChain, Chain.findFunction?_append, Chain.findFunction?_append, hstatics,
    hframes]
  simp only [Chain.findFunction?_cons]
  exact rel_or .none (rel_or hworld.funs.lookup (rel_or hbuiltins.lookup .none))

theorem mem_slotsOf_of_findVariable? {frames : Chain} {name : String} {slot : Slot}
    (h : Chain.findVariable? frames name = some slot) : slot ∈ slotsOf frames := by
  obtain ⟨frame, hframe, hlookup⟩ := List.exists_of_findSome?_eq_some h
  obtain ⟨before, behind, hvars, -⟩ := List.lookup_eq_some_iff.mp hlookup
  refine List.mem_flatMap.mpr ⟨frame, hframe, List.mem_map.mpr ⟨(name, slot), ?_, rfl⟩⟩
  rw [hvars]
  simp

/-- A use of a variable finds the one that was made by the node of its binding. -/
theorem safe_findVariable (hplace : place.Agrees context bound tables) {name : String}
    {binding : Binding} (hname : name ≠ returnName)
    (hfound : tables.chain.findVariable? name = some binding)
    (hnode : node.binding? = some binding) :
    Safe context bound (findVariable place node name)
      fun slot => ∃ entry, slot.Agrees context.elements entry binding := by
  intro world hworld
  have hrel := hplace.findVariable? hworld.1 hname
  rw [show Chain.findVariable? tables.chain name = some binding from hfound] at hrel
  -- what is found agrees with the binding, so it is found at all
  generalize hslot : Chain.findVariable? (place.locals ++ world.outerChain) name = found at hrel
  cases hrel with
  | @some _ slot hagrees =>
    have hlookup : Chain.lookupVariable (place.locals ++ world.outerChain) name = .ok slot := by
      rw [Chain.lookupVariable, hslot]
    have hvisible : slot ∈ slotsOf (place.locals ++ [world.top]) := by
      simpa [slotsOf, World.outerChain, World.builtins, builtinFrame] using
        mem_slotsOf_of_findVariable? hslot
    obtain ⟨entry, hslotAgrees⟩ := hagrees
    have hfine : Event.Fine context (slotsOf (place.locals ++ [world.top]))
        (.resolved node slot) := ⟨hvisible, binding, hnode, hslotAgrees.origin⟩
    have hresult : findVariable place node name world =
        .ok slot (world.see place (.resolved node slot)) := by
      rw [findVariable, get_bind_apply, hlookup]
      rfl
    rw [hresult]
    exact ⟨⟨hworld.1.see hplace hfine, hworld.2⟩, entry, hslotAgrees⟩

/-- A call finds the function with the signature that the analysis found. -/
theorem safe_findFunction (hplace : place.Agrees context bound tables) {name : String}
    {arity : Nat} {f : Signature} (hfound : tables.chain.findFunction? name arity = some f) :
    Safe context bound (findFunction place name arity)
      fun routine => routine.Agrees context f := by
  apply safe_get
  intro world hworld
  have hrel : Option.Rel _ _ (Chain.findFunction? (place.locals ++ world.outerChain) name arity) :=
    hplace.findFunction? hworld
  rw [show Chain.findFunction? tables.chain name arity = some f from hfound] at hrel
  generalize hroutine : Chain.findFunction? (place.locals ++ world.outerChain) name arity = found
    at hrel
  cases hrel with
  | some hagrees =>
    rw [Chain.lookupFunction, hroutine]
    exact safe_pure hagrees

/-! ### Changes of variables -/

/-- An assignment to a variable that can hold the value. -/
theorem safe_assign (hplace : place.Agrees context bound tables) {name : String}
    {binding : Binding} {value : Value} (hname : name ≠ returnName)
    (hfound : tables.chain.findVariable? name = some binding)
    (hholds : Holds context.elements binding value) :
    Safe context bound (assign place.locals name value)
      fun locals => { place with locals }.Agrees context bound tables := by
  obtain ⟨statics, hchain, hlocals⟩ := hplace.locals
  have hrel := hlocals.findVariable? hname
  have hwhole : Chain.findVariable? tables.chain name = some binding := hfound
  rw [hchain, Chain.findVariable?_append] at hwhole
  unfold assign
  -- either a local variable is meant on both sides, or a global one
  generalize hown : Chain.findVariable? statics name = own at hrel hwhole
  generalize Chain.findVariable? place.locals name = found at hrel
  cases hrel with
  | some _ =>
    cases hwhole
    exact safe_pure ⟨⟨statics, hchain, hlocals.update hname hown hholds⟩, hplace.numbered,
      hplace.nodup, hplace.lt_bound, hplace.callers⟩
  | none =>
    have hglobal : context.globals.findVariable? name = some binding := by
      have hbuiltins : Chain.findVariable? [Tables.builtins] name = none := rfl
      rwa [Option.none_or, Chain.findVariable?_cons, hbuiltins, Option.or_none] at hwhole
    intro world hworld
    have hvars := hworld.1.vars.update hname hglobal hholds
    exact ⟨⟨⟨hvars, hworld.1.funs, hworld.1.heap, hworld.1.typed, hworld.1.bound⟩, hworld.2⟩,
      hplace⟩

/-- A variable defined in a local frame, for a binding that was declared in its table. -/
theorem safe_define (hplace : place.Agrees context bound tables) {after : Tables} {name : String}
    {ty : Ty} {binding : Binding} {value : Value} (hinside : 2 ≤ tables.outer.length)
    (hname : name ≠ returnName)
    (hdeclare : tables.declare name (some ty) true false = .ok (binding, after))
    (hfits : value.Fits ty) :
    Safe context bound
      (define place.locals name ⟨value, true, some binding, place.entries.headD 0⟩)
      fun locals => { place with locals }.Agrees context bound after := by
  obtain ⟨frames, entries, callers⟩ := place
  obtain ⟨statics, hchain, hlocals⟩ := hplace.locals
  have hnumbered := hplace.numbered.declare hdeclare
  obtain ⟨hnew, rfl, rfl⟩ := Tables.declare_eq_ok_iff.mp hdeclare
  cases hlocals with
  | nil =>
    -- the table would be that of the top level
    have hlength := congrArg List.length hchain
    simp [Tables.chain] at hlength
    omega
  | @cons static entry frame statics entries locals hstatic hframe hvars hlocals =>
    -- the innermost frame and its table both get an entry at the end
    obtain ⟨rfl, houter⟩ := List.cons.inj hchain
    have hslot : Slot.Agrees context.elements entry
        ⟨tables.fresh, name, some ty, true, false⟩
        ⟨value, true, some ⟨tables.fresh, name, some ty, true, false⟩, entry⟩ :=
      ⟨rfl, rfl, rfl, .value rfl rfl hfits⟩
    obtain ⟨grown, hdefine, hfuns, hgrown⟩ := hvars.define hname hnew hslot
    simp only [define, List.headD_cons, hdefine]
    exact safe_pure ⟨⟨_ :: statics, congrArg (List.cons _) houter,
      .cons hstatic (hfuns.trans hframe) hgrown hlocals⟩, hnumbered, hplace.nodup,
      hplace.lt_bound, hplace.callers⟩

/-- A declared variable, with the change reported. -/
theorem safe_declare (hplace : place.Agrees context bound tables) {after : Tables} {name : String}
    {ty : Ty} {binding : Binding} {value : Value} (hinside : 2 ≤ tables.outer.length)
    (hname : name ≠ returnName)
    (hdeclare : tables.declare name (some ty) true false = .ok (binding, after))
    (hfits : value.Fits ty) :
    Safe context bound
      (declare place name ⟨value, true, some binding, place.entries.headD 0⟩)
      fun locals => { place with locals }.Agrees context bound after := by
  apply (safe_define hplace hinside hname hdeclare hfits).bind
  intro locals hlocals
  apply (safe_changed hlocals).bind
  intro _ _
  exact safe_pure hlocals

/-- The parameters of a function, one after another. -/
theorem safe_bindParameters (place : Place) {parameters : List String} :
    ∀ {inside after : Tables} {types : List Ty} {bindings : List Binding}
      {arguments : List Value} {locals : Chain},
      TypedParameters inside parameters types bindings after →
      { place with locals }.Agrees context bound inside → 2 ≤ inside.outer.length →
      List.Forall₂ Value.Fits arguments types →
      Safe context bound
        (bindParameters (place.entries.headD 0) parameters arguments bindings locals)
        fun locals => { place with locals }.Agrees context bound after := by
  induction parameters with
  | nil =>
    intro inside after types bindings arguments locals hparameters hplace _ _
    cases hparameters
    exact safe_pure hplace
  | cons parameter parameters ih =>
    intro inside after types bindings arguments locals hparameters hplace hinside harguments
    cases hparameters with
    | cons hname hdeclare hrest =>
      cases harguments with
      | cons hfits harguments =>
        apply (safe_define hplace hinside hname hdeclare hfits).bind
        intro locals hlocals
        obtain ⟨-, -, rfl⟩ := Tables.declare_eq_ok_iff.mp hdeclare
        exact ih hrest hlocals hinside harguments

/-! ### Blocks and calls -/

theorem Place.Agrees.enter (hplace : place.Agrees context bound tables) {entry : Nat}
    (hentry : bound ≤ entry) :
    (place.enter entry).Agrees context (entry + 1) tables.enter := by
  obtain ⟨statics, hchain, hlocals⟩ := hplace.locals
  refine ⟨⟨{} :: statics, congrArg (List.cons _) hchain, .cons rfl rfl .nil hlocals⟩,
    hplace.numbered.enter, ?_, ?_, hplace.callers⟩
  · refine List.nodup_cons.mpr ⟨fun hmem => ?_, hplace.nodup⟩
    exact absurd (hplace.lt_bound entry hmem) (Nat.not_lt.mpr hentry)
  · intro other hmem
    rcases List.mem_cons.mp hmem with rfl | hmem
    · exact Nat.lt_succ_self _
    · exact Nat.lt_succ_of_le (Nat.le_trans (Nat.le_of_lt (hplace.lt_bound other hmem)) hentry)

/-- What a block declared is gone behind it. -/
theorem Place.Agrees.leave (hplace : place.Agrees context bound tables) {inside : Tables}
    {bound' entry : Nat} {locals : Chain} (houter : inside.outer = tables.chain)
    (hle : tables.fresh ≤ inside.fresh)
    (hinside : { place.enter entry with locals }.Agrees context bound' inside) :
    { place with locals := locals.tail }.Agrees context bound (tables.resume inside) := by
  refine ⟨?_, hplace.numbered.skip hle, hplace.nodup, hplace.lt_bound, hplace.callers⟩
  obtain ⟨statics, hchain, hlocals⟩ := hinside.locals
  cases hlocals with
  | @cons static _ frame statics _ locals _ _ _ hlocals =>
    exact ⟨statics, houter.symm.trans (List.cons.inj hchain).2, hlocals⟩

theorem Place.Agrees.resume (hplace : place.Agrees context bound tables) {inside : Tables}
    (hle : tables.fresh ≤ inside.fresh) : place.Agrees context bound (tables.resume inside) :=
  ⟨hplace.locals, hplace.numbered.skip hle, hplace.nodup, hplace.lt_bound, hplace.callers⟩

/-- A function begins with a frame of its own, and the type of its result in the tables. -/
theorem Place.Agrees.call (hplace : place.Agrees context bound tables) {entry : Nat}
    (hentry : bound ≤ entry) {outer start : Tables} {f : Signature} {result : Binding}
    (hchain : outer.chain = [context.globals, Tables.builtins]) (hnumbered : outer.WellNumbered)
    (hdeclare : outer.enter.declare returnName (some f.result) false false = .ok (result, start)) :
    (place.call entry [{}]).Agrees context (entry + 1) start := by
  have hstart := hnumbered.enter.declare hdeclare
  -- zero is the entry of the global variables
  have hpos : 0 < entry :=
    Nat.lt_of_lt_of_le (hplace.lt_bound 0 (List.mem_append_right _ List.mem_cons_self)) hentry
  obtain ⟨-, rfl, rfl⟩ := Tables.declare_eq_ok_iff.mp hdeclare
  refine ⟨⟨[_], congrArg (List.cons _) hchain, .cons rfl rfl (.result .nil) .nil⟩, hstart, ?_, ?_,
    ?_⟩
  · simpa [Place.call] using Nat.ne_of_gt hpos
  · simp [Place.call]
  · intro slot hmem
    -- the frames of the caller wait from now on
    obtain ⟨statics, -, hlocals⟩ := hplace.locals
    rw [Place.call, List.flatten_cons, slotsOf, List.flatMap_append] at hmem
    rcases List.mem_append.mp hmem with hmem | hmem
    · exact hlocals.exists_binding slot hmem
    · exact hplace.callers slot hmem

end

end Watched

end BlockScript

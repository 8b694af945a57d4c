import BlockScript.Evaluation.Interpreter
import BlockScript.Proofs.Scope
/-!
# What computations see of a state

Computations find functions by name and number of arguments, and walk through their bodies without
a look at the annotations. So in which order functions were defined, and whether their bodies are
annotated, cannot be seen. The rest of a state is its surface, and two computations are alike if
they have the same outcome, and leave the same surface, whenever they begin on the same surface.

## Main definitions

* `Surface`, `World.surface` — what can be seen of a state
* `Run.Alike` — computations that cannot be told apart

## Main results

* `Run.alike_bind` — computations in a row
* `Run.alike_findVariable`, `Run.alike_findFunction`, `Run.alike_assign` — single steps
-/

namespace BlockScript

/-- The function without the annotations of its body. -/
def Routine.bare : Routine → Routine
  | print => print
  | defined name parameters body => defined name parameters (Node.eraseAll body)

/-- What can be seen of the state of a run. -/
structure Surface where
  /-- The global variables. -/
  vars : List (String × Slot)
  /-- The lists by handle. -/
  heap : Array (List Value)
  /-- What was printed and noted. -/
  transcript : Transcript
  /-- The functions of the program by name and number of parameters. -/
  routine? : String → Nat → Option Routine

namespace World

/-- What can be seen of a state. -/
def surface (world : World) : Surface where
  vars := world.top.vars
  heap := world.heap
  transcript := world.transcript
  routine? name arity := (world.top.findFunction? name arity).map Routine.bare

variable {world world' : World}

theorem surface_eq_iff : world.surface = world'.surface ↔
    world.top.vars = world'.top.vars ∧ world.heap = world'.heap ∧
      world.transcript = world'.transcript ∧ ∀ name arity,
        (world.top.findFunction? name arity).map Routine.bare =
          (world'.top.findFunction? name arity).map Routine.bare := by
  simp only [surface, Surface.mk.injEq, funext_iff]

theorem vars_eq (h : world.surface = world'.surface) : world.top.vars = world'.top.vars :=
  congrArg Surface.vars h

theorem heap_eq (h : world.surface = world'.surface) : world.heap = world'.heap :=
  congrArg Surface.heap h

theorem transcript_eq (h : world.surface = world'.surface) :
    world.transcript = world'.transcript :=
  congrArg Surface.transcript h

theorem items_eq (h : world.surface = world'.surface) : world.items = world'.items := by
  funext handle
  rw [items, items, heap_eq h]

/-- What a value shows depends on nothing but the lists. -/
theorem datum_eq_of_heap_eq (h : world.heap = world'.heap) : world.datum = world'.datum := by
  have hitems : world.items = world'.items := by
    funext handle
    rw [items, items, h]
  have hbounded : ∀ depth, world.datumBounded depth = world'.datumBounded depth := by
    intro depth
    induction depth with
    | zero =>
      funext value
      cases value <;> rfl
    | succ depth ih =>
      funext value
      cases value with
      | scalar value => rfl
      | list handle => rw [datumBounded, datumBounded, hitems, ih]
  funext value
  rw [datum, datum, hbounded, h]

theorem datum_eq (h : world.surface = world'.surface) : world.datum = world'.datum :=
  datum_eq_of_heap_eq (heap_eq h)

theorem textOf_eq (h : world.surface = world'.surface) : world.textOf = world'.textOf := by
  funext value
  rw [textOf, textOf, datum_eq h]

theorem textsOf_eq (h : world.surface = world'.surface) : world.textsOf = world'.textsOf := by
  funext values
  rw [textsOf, textsOf, datum_eq h]

mutual

/-- On the same surface a datum gets the same lists. -/
theorem surface_store : ∀ (datum : Datum) {world world' : World},
    world.surface = world'.surface → (world.store datum).1 = (world'.store datum).1 ∧
      (world.store datum).2.surface = (world'.store datum).2.surface
  | .scalar _, _, _, h => ⟨rfl, h⟩
  | .list items, world, world', h => by
    obtain ⟨hvalues, hafter⟩ := surface_storeAll items h
    obtain ⟨hvars, hheap, htranscript, hfuns⟩ := surface_eq_iff.mp hafter
    refine ⟨congrArg (Value.list ∘ Array.size) hheap, surface_eq_iff.mpr ⟨hvars, ?_, htranscript,
      hfuns⟩⟩
    exact congrArg₂ Array.push hheap hvalues

theorem surface_storeAll : ∀ (data : List Datum) {world world' : World},
    world.surface = world'.surface → (world.storeAll data).1 = (world'.storeAll data).1 ∧
      (world.storeAll data).2.surface = (world'.storeAll data).2.surface
  | [], _, _, h => ⟨rfl, h⟩
  | item :: rest, world, world', h => by
    obtain ⟨hvalue, hbetween⟩ := surface_store item h
    obtain ⟨hvalues, hafter⟩ := surface_storeAll rest hbetween
    rw [storeAll, storeAll]
    exact ⟨congrArg₂ List.cons hvalue hvalues, hafter⟩

end

end World

namespace Run

variable {α β γ δ : Type}

/-- A result with the surface of the state that it leaves behind. -/
def onSurface (f : α → β) :
    EStateM.Result Failure World α → EStateM.Result Failure Surface β
  | .ok a world => .ok (f a) world.surface
  | .error failure world => .error failure world.surface

/-- Results that cannot be told apart are two values or the same failure, on the same surface. -/
theorem onSurface_cases {f : α → β} {result result' : EStateM.Result Failure World α}
    (h : onSurface f result = onSurface f result') :
    (∃ a b after after', result = .ok a after ∧ result' = .ok b after' ∧ f a = f b ∧
      after.surface = after'.surface) ∨
    ∃ failure after after', result = .error failure after ∧ result' = .error failure after' ∧
      after.surface = after'.surface := by
  cases result with
  | ok a after =>
    cases result' with
    | ok b after' =>
      obtain ⟨hvalue, hafter⟩ := EStateM.Result.ok.inj h
      exact .inl ⟨a, b, after, after', rfl, rfl, hvalue, hafter⟩
    | error failure after' => cases h
  | error failure after =>
    cases result' with
    | ok b after' => cases h
    | error failure' after' =>
      obtain ⟨rfl, hafter⟩ := EStateM.Result.error.inj h
      exact .inr ⟨failure, after, after', rfl, rfl, hafter⟩

/-- Two computations cannot be told apart: beginning on the same surface, they end with the same
value, as far as `f` looks at it, or with the same failure, and on the same surface. -/
def Alike (f : α → β) (x y : Run α) : Prop :=
  ∀ world world', world.surface = world'.surface → onSurface f (x world) = onSurface f (y world')

/-! ### Computations in a row -/

section

variable {f : α → γ} {g : β → δ} {x y : Run α} {k l : α → Run β}

theorem alike_pure {a b : α} (h : f a = f b) : Alike f (pure a) (pure b) := by
  intro world world' hsurface
  exact congrArg₂ EStateM.Result.ok h hsurface

theorem alike_throw {failure : Failure} : Alike f (throw failure) (throw failure) :=
  fun _ _ hsurface => congrArg (EStateM.Result.error failure) hsurface

theorem Alike.symm (h : Alike f x y) : Alike f y x :=
  fun _ _ hsurface => (h _ _ hsurface.symm).symm

theorem Alike.trans {z : Run α} (h : Alike f x y) (h' : Alike f y z) : Alike f x z :=
  fun _ _ hsurface => (h _ _ hsurface).trans (h' _ _ rfl)

theorem alike_bind (h : Alike f x y) (hnext : ∀ a b, f a = f b → Alike g (k a) (l b)) :
    Alike g (x >>= k) (y >>= l) := by
  intro world world' hsurface
  simp only [bind, EStateM.bind]
  obtain ⟨a, b, after, after', hx, hy, hvalue, hafter⟩ | ⟨failure, after, after', hx, hy, hafter⟩ :=
    onSurface_cases (h world world' hsurface)
  · rw [hx, hy]
    exact hnext a b hvalue after after' hafter
  · rw [hx, hy]
    exact congrArg (EStateM.Result.error failure) hafter

/-- Two computations in a row, the first of which has a value that is looked at as a whole. -/
theorem alike_bind_id (h : Alike id x y) (hnext : ∀ a, Alike g (k a) (l a)) :
    Alike g (x >>= k) (y >>= l) := by
  apply alike_bind h
  rintro a _ rfl
  exact hnext a

theorem alike_ite {p : Prop} [Decidable p] {x' y' : Run α} (h : Alike f x y)
    (h' : Alike f x' y') : Alike f (if p then x else x') (if p then y else y') := by
  split
  · exact h
  · exact h'

theorem alike_get {k l : World → Run β}
    (h : ∀ world world', world.surface = world'.surface → Alike g (k world) (l world')) :
    Alike g (get >>= k) (get >>= l) :=
  fun world world' hsurface => h world world' hsurface world world' hsurface

theorem alike_modify {change change' : World → World}
    (h : ∀ world world', world.surface = world'.surface →
      (change world).surface = (change' world').surface) :
    Alike id (modify change) (modify change') :=
  fun world world' hsurface => congrArg (EStateM.Result.ok ()) (h world world' hsurface)

end

/-! ### Values and lists -/

theorem alike_note {level : Int} {text text' : World → String}
    (h : ∀ world world', world.surface = world'.surface → text world = text' world') :
    Alike id (note level text) (note level text') := by
  apply alike_modify
  intro world world' hsurface
  obtain ⟨hvars, hheap, htranscript, hfuns⟩ := World.surface_eq_iff.mp hsurface
  refine World.surface_eq_iff.mpr ⟨hvars, hheap, ?_, hfuns⟩
  simp only [htranscript, h world world' hsurface]

theorem alike_ofScope {f : α → β} {x y : Except ScopeError α} (h : x.map f = y.map f) :
    Alike f (ofScope x) (ofScope y) := by
  cases x with
  | ok a =>
    cases y with
    | ok b => exact alike_pure (Except.ok.inj h)
    | error e => cases h
  | error e =>
    cases y with
    | ok b => cases h
    | error e' =>
      cases h
      exact alike_throw

theorem alike_requireBoolean (value : Value) :
    Alike id (requireBoolean value) (requireBoolean value) := by
  unfold requireBoolean
  split
  · exact alike_pure rfl
  · exact alike_throw

theorem alike_requireList (name : String) (slot : Slot) :
    Alike id (requireList name slot) (requireList name slot) := by
  unfold requireList
  split
  · exact alike_pure rfl
  · exact alike_throw

theorem alike_requireOffset (handle : Nat) (value : Value) :
    Alike id (requireOffset handle value) (requireOffset handle value) := by
  unfold requireOffset
  split
  · apply alike_get
    intro world world' hsurface
    rw [World.items_eq hsurface]
    exact alike_ite (alike_pure rfl) alike_throw
  · exact alike_throw

theorem alike_readItem (handle index : Nat) :
    Alike id (readItem handle index) (readItem handle index) := by
  apply alike_get
  intro world world' hsurface
  rw [World.items_eq hsurface]
  exact alike_pure rfl

theorem alike_writeItem (handle index : Nat) (value : Value) :
    Alike id (writeItem handle index value) (writeItem handle index value) := by
  apply alike_modify
  intro world world' hsurface
  obtain ⟨hvars, hheap, htranscript, hfuns⟩ := World.surface_eq_iff.mp hsurface
  refine World.surface_eq_iff.mpr ⟨hvars, ?_, htranscript, hfuns⟩
  simp only [hheap]

theorem alike_allocate (items : List Value) : Alike id (allocate items) (allocate items) := by
  apply alike_get
  intro world world' hsurface
  obtain ⟨hvars, hheap, htranscript, hfuns⟩ := World.surface_eq_iff.mp hsurface
  rintro _ _ -
  refine congrArg₂ EStateM.Result.ok ?_ (World.surface_eq_iff.mpr ⟨hvars, ?_, htranscript, hfuns⟩)
  · simp only [id, hheap]
  · simp only [hheap]

theorem alike_print (argument : Value) :
    Alike id
      (modify fun world =>
        { world with transcript := world.transcript.print (world.textOf argument) })
      (modify fun world =>
        { world with transcript := world.transcript.print (world.textOf argument) }) := by
  apply alike_modify
  intro world world' hsurface
  obtain ⟨hvars, hheap, htranscript, hfuns⟩ := World.surface_eq_iff.mp hsurface
  refine World.surface_eq_iff.mpr ⟨hvars, hheap, ?_, hfuns⟩
  simp only [htranscript, World.textOf_eq hsurface]

theorem alike_applyToValues (symbol : String) (left right : Value) :
    Alike id (applyToValues symbol left right) (applyToValues symbol left right) := by
  apply alike_get
  intro world world' hsurface
  rw [World.datum_eq hsurface]
  -- a refusal, a result that is too great, or a result
  rcases applySymbol symbol (world'.datum left) (world'.datum right) with ⟨_ | _⟩ | _
  · exact alike_throw
  · exact alike_throw
  · exact alike_pure rfl

/-! ### Variables and functions -/

theorem alike_findVariable (locals : DynamicChain) (name : String) :
    Alike id (findVariable locals name) (findVariable locals name) := by
  apply alike_get
  intro world world' hsurface
  apply alike_ofScope
  have hfind : Chain.findVariable? (locals ++ world.outerChain) name =
      Chain.findVariable? (locals ++ world'.outerChain) name := by
    simp only [World.outerChain, Chain.findVariable?_append, Chain.findVariable?_cons,
      Frame.findVariable?, World.vars_eq hsurface]
  rw [Chain.lookupVariable, Chain.lookupVariable, hfind]

theorem alike_findFunction (locals : DynamicChain) (name : String) (arity : Nat) :
    Alike Routine.bare (findFunction locals name arity) (findFunction locals name arity) := by
  apply alike_get
  intro world world' hsurface
  apply alike_ofScope
  have hfind : (Chain.findFunction? (locals ++ world.outerChain) name arity).map Routine.bare =
      (Chain.findFunction? (locals ++ world'.outerChain) name arity).map Routine.bare := by
    have htop := (World.surface_eq_iff.mp hsurface).2.2.2 name arity
    simp only [World.outerChain, Chain.findFunction?_append, Chain.findFunction?_cons,
      Option.map_or, htop]
  unfold Chain.lookupFunction
  cases h : Chain.findFunction? (locals ++ world.outerChain) name arity with
  | none =>
    rw [h, Option.map_none, eq_comm, Option.map_eq_none_iff] at hfind
    rw [hfind]
  | some routine =>
    rw [h, Option.map_some, eq_comm, Option.map_eq_some_iff] at hfind
    obtain ⟨routine', h', hbare⟩ := hfind
    rw [h']
    exact congrArg Except.ok hbare.symm

theorem alike_define (locals : DynamicChain) (name : String) (slot : Slot) :
    Alike id (define locals name slot) (define locals name slot) := by
  cases locals with
  | cons inner outer =>
    exact alike_bind_id (alike_ofScope rfl) fun _ => alike_pure rfl
  | nil =>
    apply alike_get
    intro world world' hsurface
    obtain ⟨hvars, hheap, htranscript, hfuns⟩ := World.surface_eq_iff.mp hsurface
    -- only the variables of the top frame decide, and only they change
    unfold Frame.defineVariable Frame.findVariable?
    rw [hvars]
    cases world'.top.vars.lookup name with
    | some found => exact alike_throw
    | none =>
      rintro _ _ -
      exact congrArg (EStateM.Result.ok [])
        (World.surface_eq_iff.mpr ⟨rfl, hheap, htranscript, hfuns⟩)

theorem alike_assign (locals : DynamicChain) (name : String) (value : Value) :
    Alike id (assign locals name value) (assign locals name value) := by
  unfold assign
  apply alike_ite (alike_pure rfl)
  apply alike_bind_id _ fun _ => alike_pure rfl
  apply alike_modify
  intro world world' hsurface
  obtain ⟨hvars, hheap, htranscript, hfuns⟩ := World.surface_eq_iff.mp hsurface
  refine World.surface_eq_iff.mpr ⟨?_, hheap, htranscript, hfuns⟩
  simp only [Frame.updateVariable, hvars]

theorem alike_bindParameters (parameters : List String) :
    ∀ (arguments : List Value) (locals : DynamicChain),
      Alike id (bindParameters parameters arguments locals)
        (bindParameters parameters arguments locals) := by
  induction parameters with
  | nil => exact fun _ _ => alike_pure rfl
  | cons parameter parameters ih =>
    intro arguments locals
    cases arguments with
    | nil => exact alike_pure rfl
    | cons argument arguments =>
      exact alike_bind_id (alike_define locals parameter _) fun locals => ih arguments locals

end Run

end BlockScript

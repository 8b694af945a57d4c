import BlockScript.Proofs.Renaming.Scope
import BlockScript.Proofs.Surface.World
/-!
# States with other names

A state of a run has names in its frames and in the bodies of its functions. Values, lists and what
was printed have none, so nothing of this changes with the names. Notes tell names, and so only runs
that keep no notes are looked at here.

## Main definitions

* `World.renamed` — a state with new names
* `Failure.renamed` — the same failure under new names
* `Run.Renames` — one computation does what another one does, under new names

## Main results

* `Run.renames_bind` — computations in a row
* `Run.renames_findVariable`, `Run.renames_define`, `Run.renames_assign` — variables
* `Run.renames_findFunction` — functions
-/

namespace BlockScript

open Node (renamedAll)

variable {ρ : Renaming}

/-! ### States -/

/-- The function under its new name, and with the new names in its body. -/
def Routine.renamed (ρ : Renaming) : Routine → Routine
  | print => print
  | defined name parameters body =>
    defined (ρ.funName name) (parameters.map ρ.varName) (renamedAll ρ body)

/-- A frame of a run with new names. -/
def DynamicFrame.renamed (ρ : Renaming) (frame : DynamicFrame) : DynamicFrame :=
  Frame.renamed ρ id (Routine.renamed ρ) frame

/-- Frames of a run with new names. -/
def DynamicChain.renamed (ρ : Renaming) (chain : DynamicChain) : DynamicChain :=
  chain.map (DynamicFrame.renamed ρ)

namespace World

/-- The state with new names. -/
def renamed (ρ : Renaming) (world : World) : World :=
  { world with top := DynamicFrame.renamed ρ world.top }

/-- No notes are kept. -/
def KeepsNothing (world : World) : Prop :=
  world.transcript.verbosity ≤ 0

variable {world : World}

@[simp]
theorem datum_renamed : (world.renamed ρ).datum = world.datum :=
  datum_eq_of_heap_eq rfl

@[simp]
theorem textOf_renamed : (world.renamed ρ).textOf = world.textOf := by
  funext value
  rw [textOf, textOf, datum_renamed]

/-- The functions that are there at the top level. -/
theorem outerChain_renamed (hρ : ρ.Regular) :
    (world.renamed ρ).outerChain = DynamicChain.renamed ρ world.outerChain := by
  -- the only built-in function has a name that is kept
  have hbuiltins : DynamicFrame.renamed ρ builtins = builtins := by
    simp [DynamicFrame.renamed, Frame.renamed, builtins, builtinFrame, hρ.funName_print,
      Routine.renamed]
  rw [outerChain, outerChain, DynamicChain.renamed, List.map_cons, List.map_singleton, hbuiltins]
  rfl

end World

/-- A transcript that keeps no notes. -/
theorem Transcript.note_eq_self {t : Transcript} (h : t.verbosity ≤ 0) (level : Int)
    (text : Unit → String) : t.note level text = t := by
  have hkeeps : t.keeps level = false := by
    simp only [keeps, Bool.and_eq_false_iff, decide_eq_false_iff_not]
    omega
  simp [note, hkeeps]

/-- The same error under new names. -/
def EvaluationError.renamed (ρ : Renaming) : EvaluationError → EvaluationError
  | scope error => scope (error.renamed ρ)
  | wrongArgumentCount name expected received =>
    wrongArgumentCount (ρ.funName name) expected received
  | notList name => notList (ρ.varName name)
  | immutable name => immutable (ρ.varName name)
  | other => other

/-- The same failure under new names. -/
def Failure.renamed (ρ : Renaming) : Failure → Failure
  | error e => error (e.renamed ρ)
  | other => other

/-! ### Computations -/

namespace Run

variable {α β γ δ : Type} {f : α → β} {g : γ → δ}

/-- Two results are the same but for the names, and no notes were kept. -/
inductive SameResult (ρ : Renaming) (f : α → β) :
    EStateM.Result Failure World α → EStateM.Result Failure World β → Prop
  | ok {a world} : world.KeepsNothing → SameResult ρ f (.ok a world) (.ok (f a) (world.renamed ρ))
  | error {failure world} : world.KeepsNothing →
      SameResult ρ f (.error failure world) (.error (failure.renamed ρ) (world.renamed ρ))

/-- The second computation does under new names what the first one does, if no notes are kept. -/
def Renames (ρ : Renaming) (f : α → β) (x : Run α) (y : Run β) : Prop :=
  ∀ world, world.KeepsNothing → SameResult ρ f (x world) (y (world.renamed ρ))

theorem renames_pure {a : α} {b : β} (h : b = f a) : Renames ρ f (pure a) (pure b) := by
  intro world hworld
  rw [h]
  exact .ok hworld

theorem renames_throw {failure failure' : Failure} (h : failure' = failure.renamed ρ) :
    Renames ρ f (throw failure) (throw failure') := by
  intro world hworld
  rw [h]
  exact .error hworld

theorem renames_bind {x : Run α} {y : Run β} {k : α → Run γ} {l : β → Run δ}
    (h : Renames ρ f x y) (hnext : ∀ a, Renames ρ g (k a) (l (f a))) :
    Renames ρ g (x >>= k) (y >>= l) := by
  intro world hworld
  have hfirst := h world hworld
  simp only [bind, EStateM.bind]
  cases hx : x world with
  | ok a after =>
    rw [hx] at hfirst
    generalize y (world.renamed ρ) = result at hfirst
    cases hfirst with
    | ok hafter => exact hnext a after hafter
  | error failure after =>
    rw [hx] at hfirst
    generalize y (world.renamed ρ) = result at hfirst
    cases hfirst with
    | error hafter => exact .error hafter

theorem renames_ite {p : Prop} [Decidable p] {x x' : Run α} {y y' : Run β}
    (h : Renames ρ f x y) (h' : Renames ρ f x' y') :
    Renames ρ f (if p then x else x') (if p then y else y') := by
  by_cases hp : p
  · rwa [if_pos hp, if_pos hp]
  · rwa [if_neg hp, if_neg hp]

theorem renames_get {k : World → Run γ} {l : World → Run δ}
    (h : ∀ world : World, world.KeepsNothing → Renames ρ g (k world) (l (world.renamed ρ))) :
    Renames ρ g (get >>= k) (get >>= l) :=
  fun world hworld => h world hworld world hworld

theorem renames_modify {change change' : World → World}
    (h : ∀ world : World, world.KeepsNothing → (change world).KeepsNothing ∧
      change' (world.renamed ρ) = (change world).renamed ρ) :
    Renames ρ id (modify change) (modify change') := by
  intro world hworld
  obtain ⟨hafter, hchange⟩ := h world hworld
  have hresult : SameResult ρ id (.ok () (change world)) (.ok () ((change world).renamed ρ)) :=
    .ok hafter
  rwa [← hchange] at hresult

theorem renames_set {after : World} (h : after.KeepsNothing) :
    Renames ρ id (set after) (set (after.renamed ρ)) := by
  intro world hworld
  exact .ok h

/-- A note is not kept, whatever it tells. -/
theorem renames_note {level : Int} {text text' : World → String} :
    Renames ρ id (note level text) (note level text') := by
  apply renames_modify
  intro world hworld
  have hkeeps := Transcript.note_eq_self hworld
  simp only [World.renamed, hkeeps]
  exact ⟨hworld, trivial⟩

/-! ### Values and lists -/

theorem renames_requireBoolean (value : Value) :
    Renames ρ id (requireBoolean value) (requireBoolean value) := by
  unfold requireBoolean
  split
  · exact renames_pure rfl
  · exact renames_throw rfl

theorem renames_requireList (name : String) (slot : Slot) :
    Renames ρ id (requireList name slot) (requireList (ρ.varName name) slot) := by
  unfold requireList
  split
  · exact renames_pure rfl
  · exact renames_throw rfl

theorem renames_requireOffset (handle : Nat) (value : Value) :
    Renames ρ id (requireOffset handle value) (requireOffset handle value) := by
  unfold requireOffset
  split
  · apply renames_get
    intro world _
    exact renames_ite (renames_pure rfl) (renames_throw rfl)
  · exact renames_throw rfl

theorem renames_readItem (handle index : Nat) :
    Renames ρ id (readItem handle index) (readItem handle index) := by
  apply renames_get
  intro world _
  exact renames_pure rfl

theorem renames_writeItem (handle index : Nat) (value : Value) :
    Renames ρ id (writeItem handle index value) (writeItem handle index value) := by
  apply renames_modify
  intro world hworld
  exact ⟨hworld, rfl⟩

theorem renames_allocate (items : List Value) :
    Renames ρ id (allocate items) (allocate items) := by
  intro world hworld
  exact .ok hworld

theorem renames_print (argument : Value) :
    Renames ρ id
      (modify fun world =>
        { world with transcript := world.transcript.print (world.textOf argument) })
      (modify fun world =>
        { world with transcript := world.transcript.print (world.textOf argument) }) := by
  apply renames_modify
  intro world hworld
  rw [World.textOf_renamed]
  exact ⟨hworld, rfl⟩

/-- An operator refuses operands because of what they are, and knows no names. -/
theorem renamed_of_applySymbol {symbol : String} {a b : Datum} {e : EvaluationError}
    (h : applySymbol symbol a b = .error (.refused e)) : e.renamed ρ = e := by
  rw [applySymbol] at h
  cases hop : Operator.ofText? symbol with
  | none =>
    rw [hop] at h
    cases h
    rfl
  | some op =>
    rw [hop] at h
    cases op
    -- what is refused is told by a symbol and the kinds of the operands
    all_goals
      simp only [Operator.apply, Operator.applyPlus, Operator.applyMinus, Operator.applyTimes,
        Operator.applyDivide, Operator.applyPower, Operator.applyOrder, Operator.decimalResult,
        Operator.refuse] at h
      repeat' split at h
      all_goals
        cases h
        try rfl

theorem renames_applyToValues (symbol : String) (left right : Value) :
    Renames ρ id (applyToValues symbol left right) (applyToValues symbol left right) := by
  apply renames_get
  intro world _
  rw [World.datum_renamed]
  cases happly : applySymbol symbol (world.datum left) (world.datum right) with
  | ok result => exact renames_pure rfl
  | error fault =>
    cases fault with
    | refused e =>
      apply renames_throw
      rw [Failure.renamed, renamed_of_applySymbol happly]
    | overflow => exact renames_throw rfl

/-! ### Names -/

section

variable {f : α → β} {locals : DynamicChain} {name : String}

theorem renames_ofScope {x : Except ScopeError α} {y : Except ScopeError β}
    (h : y = (x.map f).mapError (ScopeError.renamed ρ)) :
    Renames ρ f (ofScope x) (ofScope y) := by
  rw [h]
  cases x with
  | ok a => exact renames_pure rfl
  | error e => exact renames_throw rfl

theorem renames_findVariable (hρ : ρ.Regular) :
    Renames ρ id (findVariable locals name)
      (findVariable (DynamicChain.renamed ρ locals) (ρ.varName name)) := by
  apply renames_get
  intro world _
  apply renames_ofScope
  rw [World.outerChain_renamed hρ, DynamicChain.renamed, DynamicChain.renamed, ← List.map_append]
  exact Chain.lookupVariable_renamed hρ.toSeparates

theorem renames_findFunction (hρ : ρ.Regular) {arity : Nat} :
    Renames ρ (Routine.renamed ρ) (findFunction locals name arity)
      (findFunction (DynamicChain.renamed ρ locals) (ρ.funName name) arity) := by
  apply renames_get
  intro world _
  apply renames_ofScope
  rw [World.outerChain_renamed hρ, DynamicChain.renamed, DynamicChain.renamed, ← List.map_append]
  exact Chain.lookupFunction_renamed hρ.toSeparates

theorem renames_define (hρ : ρ.Separates) {slot : Slot} :
    Renames ρ (DynamicChain.renamed ρ) (define locals name slot)
      (define (DynamicChain.renamed ρ locals) (ρ.varName name) slot) := by
  have hdefine : ∀ frame : DynamicFrame,
      Frame.defineVariable (DynamicFrame.renamed ρ frame) (ρ.varName name) slot =
        ((frame.defineVariable name slot).map (DynamicFrame.renamed ρ)).mapError
          (ScopeError.renamed ρ) := fun frame => Frame.defineVariable_renamed hρ
  cases locals with
  | cons inner outer =>
    apply renames_bind (renames_ofScope (hdefine inner))
    intro inner
    exact renames_pure rfl
  | nil =>
    -- at the top level the top frame changes
    apply renames_get
    intro world hworld
    apply renames_bind (renames_ofScope (hdefine world.top))
    intro top
    have hafter : World.KeepsNothing { world with top } := hworld
    apply renames_bind (renames_set hafter)
    intro _
    exact renames_pure rfl

theorem renames_assign (hρ : ρ.Separates) {value : Value} :
    Renames ρ (DynamicChain.renamed ρ) (assign locals name value)
      (assign (DynamicChain.renamed ρ locals) (ρ.varName name) value) := by
  have hfind : Chain.findVariable? (DynamicChain.renamed ρ locals) (ρ.varName name) =
      (Chain.findVariable? locals name).map id := Chain.findVariable?_renamed hρ
  rw [assign, assign, hfind, Option.isSome_map]
  apply renames_ite
  · exact renames_pure (Chain.updateVariable_renamed hρ fun _ => rfl)
  · -- no local frame has the variable, and the top frame changes
    apply renames_bind (f := id)
    · apply renames_modify
      intro world hworld
      have htop : Frame.updateVariable (DynamicFrame.renamed ρ world.top) (ρ.varName name)
            (fun slot => { slot with value }) =
          DynamicFrame.renamed ρ (world.top.updateVariable name fun slot => { slot with value }) :=
        Frame.updateVariable_renamed hρ fun _ => rfl
      exact ⟨hworld, congrArg (fun top => { world with top }) htop⟩
    · intro _
      exact renames_pure rfl

/-- The parameters get the arguments one after another. -/
theorem renames_bindParameters (hρ : ρ.Separates) : ∀ (parameters : List String)
    (arguments : List Value) (locals : DynamicChain),
    Renames ρ (DynamicChain.renamed ρ) (bindParameters parameters arguments locals)
      (bindParameters (parameters.map ρ.varName) arguments (DynamicChain.renamed ρ locals))
  | [], _, _ => renames_pure rfl
  | _ :: _, [], _ => renames_pure rfl
  | parameter :: parameters, argument :: arguments, locals => by
    apply renames_bind (renames_define hρ)
    intro locals
    exact renames_bindParameters hρ parameters arguments locals

end

end Run

end BlockScript

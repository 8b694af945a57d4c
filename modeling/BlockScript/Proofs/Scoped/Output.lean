import BlockScript.Proofs.Scoped.Agreement
import BlockScript.Proofs.Surface.Composition
/-!
# Output is not taken back

Whatever a run on scopes does, and however it ends, the events that were there stay, and new ones
come behind them. So a run that has used up its fuel has put out the beginning of what it would put
out with more.

A run on scopes is a run (`BlockScript.Proofs.Scoped.Agreement`), and runs only write
(`Run.Composed.writing`), so this need not be shown part by part.

## Main definitions

* `Transcript.Continues` — transcripts with more events
* `Scoped.Logs` — computations in a scope that go on with the transcript

## Main results

* `Scoped.logs_bind`, `Scoped.logs_lift`, `Scoped.logs_inside` — how such computations are made
* `Scoped.logs_evaluate`, `Scoped.logs_execute` — expressions and statements
-/

namespace BlockScript

/-- A transcript with more events, kept for the same verbosity. -/
structure Transcript.Continues (before after : Transcript) : Prop where
  verbosity_eq : after.verbosity = before.verbosity
  events : before.events <+: after.events

namespace Transcript.Continues

variable {before middle after : Transcript}

theorem refl (transcript : Transcript) : transcript.Continues transcript :=
  ⟨rfl, List.prefix_refl _⟩

theorem trans (h : before.Continues middle) (h' : middle.Continues after) :
    before.Continues after :=
  ⟨h'.verbosity_eq.trans h.verbosity_eq, h.events.trans h'.events⟩

end Transcript.Continues

/-- Writes go on with the transcript. -/
theorem World.Writes.continues {world after : World} (h : world.Writes after) :
    world.transcript.Continues after.transcript := by
  refine ⟨h.verbosity_eq, ?_⟩
  induction h with
  | refl => exact List.prefix_refl _
  | tail _ hwrite ih =>
    refine ih.trans ?_
    cases hwrite with
    | event event =>
      rw [Transcript.events, Transcript.events, List.reverse_cons]
      exact List.prefix_append _ _
    | _ => exact List.prefix_refl _

namespace Scoped

open BlockScript.Scoped.Run
open BlockScript.Run (Writing)

variable {α β : Type} {place : Place} {fuel : Nat}

/-- What was printed and noted so far. -/
def State.events (σ : State) : List Event :=
  σ.world.transcript.events

/-- A computation in a scope goes on with the transcript, and the scope is there behind it. -/
def Logs (place : Place) (x : Run α) : Prop :=
  ∀ σ : State, σ.Has place →
    σ.world.transcript.Continues (behind (x σ)).world.transcript ∧ (behind (x σ)).Has place

theorem Logs.events {x : Run α} (h : Logs place x) {σ : State} (hplace : σ.Has place) :
    σ.events <+: (behind (x σ)).events :=
  (h σ hplace).1.events

/-! ### Computations in a row -/

theorem logs_pure (a : α) : Logs place (pure a) :=
  fun _ hplace => ⟨.refl _, hplace⟩

theorem logs_throw (failure : Failure) : Logs place (throw failure : Run α) :=
  fun _ hplace => ⟨.refl _, hplace⟩

theorem logs_bind {x : Run α} {k : α → Run β} (hx : Logs place x) (hk : ∀ a, Logs place (k a)) :
    Logs place (x >>= k) := by
  intro σ hplace
  have hfirst := hx σ hplace
  rw [behind_bind]
  cases h : x σ with
  | ok a after =>
    rw [h] at hfirst
    have hsecond := hk a after hfirst.2
    exact ⟨hfirst.1.trans hsecond.1, hsecond.2⟩
  | error failure after =>
    rwa [h] at hfirst

/-- What follows may depend on the state. -/
theorem logs_get {k : State → Run α} (h : ∀ σ, Logs place (k σ)) : Logs place (get >>= k) :=
  fun σ => h σ σ

theorem logs_ite {p : Prop} [Decidable p] {x y : Run α} (hx : Logs place x) (hy : Logs place y) :
    Logs place (if p then x else y) := by
  split
  · exact hx
  · exact hy

/-! ### Single steps -/

theorem logs_lift {x : BlockScript.Run α} (hx : Writing x) : Logs place (lift x) := by
  intro σ hplace
  have hworld : (behind (lift x σ)).world = behind (x σ.world) := by
    unfold lift
    cases x σ.world <;> rfl
  have hscopes : (behind (lift x σ)).scopes = σ.scopes := by
    unfold lift
    cases x σ.world <;> rfl
  rw [hworld]
  refine ⟨(hx σ.world).continues, ?_⟩
  cases place with
  | none => trivial
  | some id =>
    rw [State.Has, hscopes]
    exact hplace

theorem logs_findVariable (name : String) : Logs place (findVariable place name) :=
  logs_get fun _ => logs_lift (BlockScript.Run.writing_ofScope _)

theorem logs_findFunction (name : String) (arity : Nat) :
    Logs place (findFunction place name arity) :=
  logs_get fun _ => logs_lift (BlockScript.Run.writing_ofScope _)

@[simp]
theorem State.transcript_setFrame {σ : State} {frame : DynamicFrame} :
    (σ.setFrame place frame).world.transcript = σ.world.transcript := by
  cases place <;> rfl

theorem State.has_setFrame {σ : State} {p : Place} {frame : DynamicFrame} (h : σ.Has p) :
    (σ.setFrame place frame).Has p := by
  cases p with
  | none => trivial
  | some id =>
    change id < (σ.setFrame place frame).next
    rwa [next_setFrame]

theorem logs_assign (name : String) (value : Value) : Logs place (assign place name value) := by
  intro σ hplace
  refine ⟨?_, State.has_setFrame hplace⟩
  have hbehind : (behind (assign place name value σ)).world.transcript = σ.world.transcript :=
    State.transcript_setFrame
  rw [hbehind]
  exact .refl _

theorem logs_inside {block : Place → Run α} (hgrows : ∀ inner, Grows inner (block inner))
    (h : ∀ id, Logs (some id) (block (some id))) : Logs place (inside place block) := by
  intro σ hplace
  have hblock := h σ.next (σ.opened place) State.has_opened_self
  have hdefines : Defines place [] (inside place block) := defines_inside hgrows
  obtain ⟨names, -, hchanges⟩ := hdefines σ hplace
  exact ⟨hblock.1, hchanges.has hplace⟩

/-- What is quiet leaves every scope where it is. -/
theorem Logs.of_quiet {x : Run α} (h : Logs none x) (hquiet : Quiet x) : Logs place x :=
  fun σ hplace => ⟨(h σ State.has_none).1, (hquiet σ).has hplace⟩

/-! ### Expressions and statements -/

/-- What agrees with runs that only write goes on with the transcript. -/
theorem logs_of_agrees {x : Run α} {y : DynamicChain → BlockScript.Run β}
    {view : α → DynamicChain → β} (h : ∀ locals, Agrees place locals view x (y locals))
    (hwriting : ∀ locals, Writing (y locals)) (hgrows : Grows place x) : Logs place x := by
  intro σ hplace
  have hworld : behind (y (σ.locals place) σ.world) = (behind (x σ)).world := by
    rw [← h _ σ hplace rfl]
    cases x σ <;> rfl
  obtain ⟨names, hchanges⟩ := hgrows σ hplace
  rw [← hworld]
  exact ⟨(hwriting _ σ.world).continues, hchanges.has hplace⟩

theorem logs_define (name : String) {slot : Slot} (hslot : slot.mutable = true) :
    Logs place (define place name slot) :=
  logs_of_agrees (fun _ => agrees_define) (fun _ => BlockScript.Run.writing_define name slot)
    (defines_define hslot).grows

theorem logs_evaluate (fuel : Nat) (place : Place) (node : Node) :
    Logs place (evaluate fuel place node) :=
  logs_of_agrees (agrees_evaluate fuel place · node)
    (fun locals => (BlockScript.Run.composed_evaluate fuel locals node).writing)
    (quiet_evaluate fuel place node).grows

theorem logs_evaluateAll (fuel : Nat) (place : Place) (nodes : List Node) :
    Logs place (evaluateAll fuel place nodes) :=
  logs_of_agrees (agrees_evaluateAll fuel place · nodes)
    (fun locals => (BlockScript.Run.composed_evaluateAll fuel locals nodes).writing)
    (quiet_evaluateAll fuel place nodes).grows

theorem logs_invoke (fuel : Nat) (place : Place) (routine : Routine) (arguments : List Value) :
    Logs place (invoke fuel routine arguments) :=
  logs_of_agrees (agrees_invoke fuel place · routine arguments)
    (fun _ => (BlockScript.Run.composed_invoke fuel routine arguments).writing)
    (quiet_invoke fuel routine arguments).grows

theorem logs_execute (fuel : Nat) (place : Place) (node : Node) :
    Logs place (execute fuel place node) :=
  logs_of_agrees (agrees_execute fuel place · node)
    (fun locals => (BlockScript.Run.composed_execute fuel locals node).writing)
    (defines_execute fuel place node).grows

theorem logs_executeBlock (fuel : Nat) (place : Place) (nodes : List Node) :
    Logs place (executeBlock fuel place nodes) :=
  logs_of_agrees (agrees_executeBlock fuel place · nodes)
    (fun locals => (BlockScript.Run.composed_executeBlock fuel locals nodes).writing)
    (grows_executeBlock fuel place nodes)

theorem logs_executeCases (fuel : Nat) (place : Place) (chosen : Value) (nodes : List Node) :
    Logs place (executeCases fuel place chosen nodes) :=
  logs_of_agrees (agrees_executeCases fuel place · chosen nodes)
    (fun locals => (BlockScript.Run.composed_executeCases fuel locals chosen nodes).writing)
    (defines_executeCases fuel place chosen nodes).grows

theorem logs_executeLoop (fuel : Nat) (place : Place) (condition : Node) (body : List Node) :
    Logs place (executeLoop fuel place condition body) :=
  logs_of_agrees (agrees_executeLoop fuel place · condition body)
    (fun locals => (BlockScript.Run.composed_executeLoop fuel locals condition body).writing)
    (defines_executeLoop fuel place condition body).grows

end Scoped

end BlockScript

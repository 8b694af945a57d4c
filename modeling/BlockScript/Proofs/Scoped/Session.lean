import Mathlib.Logic.Relation
import BlockScript.Proofs.Scoped.Agreement
import BlockScript.Session
/-!
# What stays in a session

At the top level a session takes steps: it evaluates expressions, executes statements, calls
functions, and defines what a program declares. Running a whole program is a row of such steps, so
that a state in the middle of a run is one between two steps. What no step can change stays through
all of them: a variable is never lost, it keeps its value if it is not mutable, and a list keeps its
length.

## Main definitions

* `World.Step`, `World.Reaches` — steps at the top level, and rows of them
* `World.Persists` — what has stayed from one state to a later one
* `Session.Action` — what can be done in a session

## Main results

* `World.Reaches.persists` — whatever the steps are, what cannot change stays
* `Session.reaches_take` — a session takes steps
* `Scoped.steps_touch_only_their_scopes` — what expressions and statements may change in any scope,
  and what stays in a session
-/

namespace BlockScript

open Scoped (behind)

namespace World

/-- A step at the top level. -/
inductive Step (world : World) : World → Prop
  /-- An expression is evaluated. -/
  | evaluate (fuel : Nat) (node : Node) : Step world (behind (evaluate fuel [] node world))
  /-- A statement is executed. -/
  | execute (fuel : Nat) (node : Node) : Step world (behind (execute fuel [] node world))
  /-- A function is called. -/
  | invoke (fuel : Nat) (routine : Routine) (arguments : List Value) :
    Step world (behind (invoke fuel routine arguments world))
  /-- A global variable is defined. -/
  | defineVariable (name : String) (slot : Slot) :
    Step world (behind (Run.define [] name slot world))
  /-- A function is defined. -/
  | defineFunction (node : Node) : Step world (behind (defineFunction node world))
  /-- Lists are made for the arguments of a call. -/
  | store (data : List Datum) : Step world (world.storeAll data).2
  /-- Something is noted or printed. -/
  | output (transcript : Transcript) : Step world { world with transcript }

/-- Steps at the top level one after the other. -/
abbrev Reaches : World → World → Prop :=
  Relation.ReflTransGen Step

/-- What has stayed from one state to a later one. -/
structure Persists (before after : World) : Prop where
  /-- A variable of the top scope stays one, and if it is not mutable, it keeps its value. -/
  kept : Scoped.KeepsVariables before.top after.top
  /-- A list keeps its length. -/
  lengths : before.lengths <+: after.lengths

namespace Persists

variable {before middle after : World}

theorem of_top_eq (htop : after.top = before.top) (hlengths : before.lengths <+: after.lengths) :
    before.Persists after where
  kept := .of_vars_eq (congrArg Frame.vars htop)
  lengths := hlengths

theorem refl (world : World) : world.Persists world :=
  of_top_eq rfl (List.prefix_refl _)

theorem trans (h : before.Persists middle) (h' : middle.Persists after) :
    before.Persists after where
  kept := h.kept.trans h'.kept
  lengths := h.lengths.trans h'.lengths

/-- What a step in some scope may change leaves the rest. -/
theorem of_changes {place : Scoped.Place} {names : List String} {σ σ' : Scoped.State}
    (h : Scoped.Changes place names σ σ') : σ.world.Persists σ'.world where
  kept := (h.frames none).kept
  lengths := h.lengths

end Persists

mutual

theorem persists_store : ∀ (datum : Datum) (world : World), world.Persists (world.store datum).2
  | .scalar _, world => .refl world
  | .list items, world => by
    have hitems := persists_storeAll items world
    have hpush : (world.storeAll items).2.Persists (world.store (.list items)).2 := by
      rw [store]
      exact .of_top_eq rfl (lengths_push ▸ List.prefix_append _ _)
    exact hitems.trans hpush

theorem persists_storeAll : ∀ (data : List Datum) (world : World),
    world.Persists (world.storeAll data).2
  | [], world => .refl world
  | item :: rest, world => by
    rw [storeAll]
    exact (persists_store item world).trans (persists_storeAll rest _)

end

/-! ### One step -/

variable {world after : World}

/-- The state of a run on scopes in which no local scope was made. -/
def withoutScopes (world : World) : Scoped.State :=
  { world, scopes := {} }

theorem behind_viewResult {α β : Type} {place : Scoped.Place} {view : α → DynamicChain → β}
    (result : EStateM.Result Failure Scoped.State α) :
    behind (Scoped.viewResult place view result) = (behind result).world := by
  cases result <;> rfl

/-- A computation on scopes leaves for the top level what it leaves for a run. -/
theorem persists_of_agrees {α β : Type} {view : α → DynamicChain → β} {x : Scoped.Run α}
    {y : Run β} (h : Scoped.Agrees none [] view x y) (hgrows : Scoped.Grows none x) :
    world.Persists (behind (y world)) := by
  obtain ⟨names, hchanges⟩ := hgrows world.withoutScopes Scoped.State.has_none
  have hresult := h world.withoutScopes Scoped.State.has_none rfl
  have hworld : (behind (x world.withoutScopes)).world = behind (y world) :=
    (behind_viewResult _).symm.trans (congrArg behind hresult)
  rw [← hworld]
  exact .of_changes hchanges

theorem persists_define (name : String) (slot : Slot) :
    world.Persists (behind (Run.define [] name slot world)) := by
  simp only [Run.define, Scoped.get_bind_apply]
  cases h : world.top.defineVariable name slot with
  | error e => exact .refl world
  | ok top => exact ⟨.of_defineVariable h, List.prefix_refl _⟩

theorem persists_defineFunction (node : Node) :
    world.Persists (behind (defineFunction node world)) := by
  cases node with
  | function name parameters parameterTypes resultType body signature =>
    simp only [defineFunction, Scoped.get_bind_apply]
    cases h : world.top.defineFunction name parameters.length (.defined name parameters body) with
    | error e => exact .refl world
    | ok top =>
      obtain ⟨-, rfl⟩ := Frame.defineFunction_eq_ok_iff.mp h
      exact ⟨.of_vars_eq rfl, List.prefix_refl _⟩
  | _ => exact .refl world

/-- One step leaves what cannot change. -/
theorem Step.persists (h : world.Step after) : world.Persists after := by
  cases h with
  | evaluate fuel node =>
    exact persists_of_agrees (Scoped.agrees_evaluate fuel none [] node)
      (Scoped.quiet_evaluate fuel none node).grows
  | execute fuel node =>
    exact persists_of_agrees (Scoped.agrees_execute fuel none [] node)
      (Scoped.defines_execute fuel none node).grows
  | invoke fuel routine arguments =>
    exact persists_of_agrees (Scoped.agrees_invoke fuel none [] routine arguments)
      (Scoped.quiet_invoke fuel routine arguments).grows
  | defineVariable name slot => exact persists_define name slot
  | defineFunction node => exact persists_defineFunction node
  | store data => exact persists_storeAll data world
  | output transcript => exact .of_top_eq rfl (List.prefix_refl _)

/-- Whatever the steps are, what cannot change stays. -/
theorem Reaches.persists (h : world.Reaches after) : world.Persists after := by
  induction h with
  | refl => exact .refl world
  | tail _ hstep ih => exact ih.trans hstep.persists

/-! ### Programs are rows of steps -/

end World

/-- A computation takes steps at the top level. -/
def Walks {α : Type} (x : Run α) : Prop :=
  ∀ world, World.Reaches world (behind (x world))

section

variable {α β : Type}

theorem walks_pure (a : α) : Walks (pure a) :=
  fun _ => .refl

theorem walks_throw (failure : Failure) : Walks (throw failure : Run α) :=
  fun _ => .refl

theorem walks_bind {x : Run α} {k : α → Run β} (hx : Walks x) (hk : ∀ a, Walks (k a)) :
    Walks (x >>= k) := by
  intro world
  have hfirst := hx world
  rw [Scoped.behind_bind]
  cases h : x world with
  | ok a after =>
    rw [h] at hfirst
    exact hfirst.trans (hk a after)
  | error failure after =>
    rwa [h] at hfirst

theorem walks_ite {p : Prop} [Decidable p] {x y : Run α} (hx : Walks x) (hy : Walks y) :
    Walks (if p then x else y) := by
  split
  · exact hx
  · exact hy

theorem walks_note (level : Int) (text : World → String) : Walks (Run.note level text) :=
  fun _ => .single (.output _)

theorem walks_findFunction (name : String) (arity : Nat) :
    Walks (Run.findFunction [] name arity) := by
  intro world
  have hbehind : behind (Run.findFunction [] name arity world) = world := by
    have hfind : Run.findFunction [] name arity world =
        Run.ofScope (Chain.lookupFunction ([] ++ world.outerChain) name arity) world := rfl
    rw [hfind]
    cases Chain.lookupFunction ([] ++ world.outerChain) name arity <;> rfl
  rw [hbehind]

theorem walks_executeGlobal (fuel : Nat) (node : Node) : Walks (executeGlobal fuel node) := by
  have hevaluate : ∀ value, Walks (evaluate fuel [] value) :=
    fun value _ => .single (.evaluate fuel value)
  cases node with
  | global name mutable typeName value isList binding =>
    have hdefine : ∀ initial, Walks (do
        let _ ← Run.define [] name { value := initial, mutable }
        Run.note 2 fun world => "global " ++ name ++ " = " ++ world.textOf initial) := by
      intro initial
      apply walks_bind fun _ => .single (.defineVariable name { value := initial, mutable })
      intro _
      exact walks_note _ _
    exact walks_ite (hdefine _) (walks_bind (hevaluate value) hdefine)
  | declaration | assignment | ret | case =>
    exact walks_ite (walks_throw _) (walks_bind (hevaluate _) fun _ => walks_throw _)
  | _ => exact walks_throw _

theorem walks_defineFunction (node : Node) : Walks (defineFunction node) :=
  fun _ => .single (.defineFunction node)

theorem walks_forM {f : Node → Run Unit} (hf : ∀ node, Walks (f node)) (nodes : List Node) :
    Walks (nodes.forM f) := by
  induction nodes with
  | nil => exact walks_pure ()
  | cons node rest ih => exact walks_bind (hf node) fun _ => ih

theorem walks_callByName (fuel : Nat) (name : String) (arity : Nat) (arguments : List Value) :
    Walks (callByName fuel name arity arguments) := by
  apply walks_bind (walks_findFunction name arity)
  intro routine _
  exact .single (.invoke fuel routine arguments)

theorem walks_runProgram (fuel : Nat) (node : Node) : Walks (runProgram fuel node) := by
  cases node with
  | program globals functions =>
    apply walks_bind (walks_note _ _)
    intro _
    apply walks_bind (walks_forM (walks_executeGlobal fuel) globals)
    intro _
    apply walks_bind (walks_forM walks_defineFunction functions)
    intro _
    apply walks_bind (walks_callByName fuel "main" 0 [])
    intro result
    exact walks_bind (walks_note _ _) fun _ => walks_pure result
  | _ => exact walks_throw _

end

/-! ### Sessions take steps -/

namespace Session

/-- What can be done in a session. -/
inductive Action where
  | load (program : Node)
  | clearEvents
  | analyze
  | run (fuel : Nat)
  | emit
  | evaluate (fuel : Nat) (expression : Node)
  | execute (fuel : Nat) (statement : Node)
  | call (fuel : Nat) (name : String) (arity : Nat) (arguments : List Datum)
  | typeOf (expression : Node)
  | check (statement : Node)

/-- The session after something was done, whether it failed or not. -/
def take (session : Session) : Action → Session
  | .load program => session.load program
  | .clearEvents => session.clearEvents
  | .analyze => behind (analyze session)
  | .run fuel => behind (run fuel session)
  | .emit => behind (emit session)
  | .evaluate fuel expression => behind (evaluate fuel expression session)
  | .execute fuel statement => behind (execute fuel statement session)
  | .call fuel name arity arguments => behind (call fuel name arity arguments session)
  | .typeOf expression => behind (typeOf expression session)
  | .check statement => behind (check statement session)

variable {session : Session}

theorem world_behind_ofRun {α : Type} (x : Run α) :
    (behind (Step.ofRun x session)).world = behind (x session.world) := by
  unfold Step.ofRun
  cases x session.world <;> rfl

/-- A computation that takes steps takes them in a session. -/
theorem reaches_ofRun {α : Type} {x : Run α} (hx : Walks x) :
    session.world.Reaches (behind (Step.ofRun x session)).world := by
  rw [world_behind_ofRun]
  exact hx session.world

theorem reaches_ofRunDatum {x : Run Value} (hx : Walks x) :
    session.world.Reaches (behind (Step.ofRunDatum x session)).world := by
  apply reaches_ofRun
  apply walks_bind hx
  intro value world
  exact .refl

theorem behind_throwFault {α : Type} (checked : Checked α) (after : Session) :
    behind (Step.throwFault checked after) = after := by
  unfold Step.throwFault
  cases checked.fault <;> rfl

theorem behind_throwFault_bind {α β : Type} (checked : Checked α) (result : β) (after : Session) :
    behind ((do Step.throwFault checked; return result : Session.Step β) after) = after := by
  unfold Step.throwFault
  cases checked.fault <;> rfl

/-- The call of a function by a session: the arguments are put into lists first. -/
theorem walks_call (fuel : Nat) (name : String) (arity : Nat) (arguments : List Datum) :
    Walks (do
      let routine ← Run.findFunction [] name arity
      let (values, world) := (← get).storeAll arguments
      set world
      invoke fuel routine values) := by
  apply walks_bind (walks_findFunction name arity)
  intro routine world
  have hstore : world.Reaches (world.storeAll arguments).2 := .single (.store arguments)
  exact hstore.tail (.invoke fuel routine (world.storeAll arguments).1)

/-- Whatever is done in a session are steps at the top level. -/
theorem reaches_take (action : Action) : session.world.Reaches (session.take action).world := by
  cases action with
  | load program => exact .refl
  | clearEvents => exact .single (.output _)
  | analyze =>
    change World.Reaches _
      (behind (Step.throwFault (checkProgram session.tables session.program) _)).world
    rw [behind_throwFault]
    exact .single (.output _)
  | run fuel => exact reaches_ofRunDatum (walks_runProgram fuel session.program)
  | emit =>
    have hemit : behind (emit session) = session := by
      rw [emit, Scoped.get_bind_apply]
      cases emitProgram session.program <;> rfl
    rw [take, hemit]
  | evaluate fuel expression =>
    exact reaches_ofRunDatum fun _ => .single (.evaluate fuel expression)
  | execute fuel statement =>
    apply reaches_ofRun
    apply walks_bind fun _ => .single (.execute fuel statement)
    intro outcome world
    exact .refl
  | call fuel name arity arguments =>
    exact reaches_ofRunDatum (walks_call fuel name arity arguments)
  | typeOf expression =>
    change World.Reaches _ (behind ((do
      Step.throwFault (checkExpression session.tables.chain expression)
      return (checkExpression session.tables.chain expression).result.type? :
        Session.Step (Option Ty)) _)).world
    rw [behind_throwFault_bind]
    exact .single (.output _)
  | check statement =>
    change World.Reaches _
      (behind (Step.throwFault (checkStatement session.tables statement) _)).world
    rw [behind_throwFault]
    exact .single (.output _)

end Session

namespace Scoped

/-- Expressions and statements touch only what they may. In every scope that was made they do what
runs do with the frames of that scope; an expression changes values of mutable variables of the top
scope and items of lists at most, a statement defines at most the name that it declares, in its own
scope, and both leave the rest as it was, whether they fail or not. What is done in a session are
steps at the top level, and through any number of them, variables that are not mutable keep their
values and lists their lengths. -/
theorem steps_touch_only_their_scopes :
    (∀ (fuel : Nat) (place : Place) (node : Node) (σ : State), σ.Has place →
      viewResult place (fun value _ => value) (evaluate fuel place node σ) =
        BlockScript.evaluate fuel (σ.locals place) node σ.world ∧
      viewResult place Prod.mk (execute fuel place node σ) =
        BlockScript.execute fuel (σ.locals place) node σ.world ∧
      Changes none [] σ (behind (evaluate fuel place node σ)) ∧
      ∃ names, names <+: node.declared ∧
        Changes place names σ (behind (execute fuel place node σ))) ∧
    (∀ (session : Session) (action : Session.Action),
      session.world.Reaches (session.take action).world) ∧
    ∀ world after : World, world.Reaches after → world.Persists after := by
  refine ⟨fun fuel place node σ hplace => ⟨?_, ?_, ?_, ?_⟩, ?_, ?_⟩
  · exact agrees_evaluate fuel place _ node σ hplace rfl
  · exact agrees_execute fuel place _ node σ hplace rfl
  · exact quiet_evaluate fuel place node σ
  · exact defines_execute fuel place node σ hplace
  · exact fun session action => Session.reaches_take action
  · exact fun world after h => h.persists

/-- A declaration in a scope inside the top scope, and an expression at the top level. -/
theorem steps_touch_only_their_scopes_declaration :
    ∃ σ σ' : State, σ.Has (some 0) ∧
      σ' = behind (execute 2 (some 0)
        (.declaration "x" none (.literal (.integer 1) none) none) σ) ∧
      (σ'.frame (some 0)).names = ["x"] ∧
      (∃ names, names <+: ["x"] ∧ Changes (some 0) names σ σ') ∧
      σ.world.Persists (behind
        (BlockScript.evaluate 1 [] (.literal (.integer 1) none) σ.world)) := by
  let σ := (World.initial 0).withoutScopes.opened none
  have hplace : σ.Has (some 0) := State.has_opened_self
  obtain ⟨-, -, -, hchanges⟩ := steps_touch_only_their_scopes.1 2 (some 0)
    (.declaration "x" none (.literal (.integer 1) none) none) σ hplace
  have hreaches : σ.world.Reaches (behind
      (BlockScript.evaluate 1 [] (.literal (.integer 1) none) σ.world)) :=
    .single (.evaluate 1 (.literal (.integer 1) none))
  have hpersists := steps_touch_only_their_scopes.2.2 _ _ hreaches
  exact ⟨σ, _, hplace, rfl, rfl, hchanges, hpersists⟩

end Scoped

end BlockScript

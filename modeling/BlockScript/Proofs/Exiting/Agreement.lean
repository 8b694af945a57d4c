import BlockScript.Proofs.Exiting.Interpreter
import BlockScript.Proofs.Watched.Erasure
/-!
# Outcomes pass on returns as exits do

Runs pass on the outcome of a statement by hand, through blocks, cases and loops up to the call. Runs
with exits leave it to the exit to get there. Both do the same: an expression has no exit that is a
return, and a statement has one exactly if its outcome is the result of the function. The proofs go
through the rules of both in step, so nothing is evaluated in one of them that the other leaves out.

## Main definitions

* `Exiting.raising` — a statement whose outcome is thrown

## Main results

* `Exiting.evaluate_eq`, `Exiting.invoke_eq` — expressions and functions have no other exits
* `Exiting.execute_eq` — statements throw their outcomes
* `Exiting.runProgram_eq` — whole programs
* `Exiting.eraseResult_lift` — runs that are not watched
-/

namespace BlockScript

namespace Watched.Exiting

open Watched.Run (perform findVariable findFunction assign report note)

variable {α β : Type}

/-- A statement that throws its outcome if it ended the function. -/
def raising (x : Watched.Run (Option Value × Chain)) : Run Chain := do
  match ← lift x with
  | (some result, _) => throw (.returned result)
  | (none, locals) => pure locals

/-! ### Computations in a row -/

theorem bind_apply (x : Run α) (next : α → Run β) (world : World) :
    (x >>= next) world =
      match x world with
      | .ok a after => next a after
      | .error exit after => .error exit after := by
  simp only [Bind.bind, EStateM.bind]
  cases x world <;> rfl

theorem lift_bind (x : Watched.Run α) (next : α → Watched.Run β) :
    lift (x >>= next) = lift x >>= fun a => lift (next a) := by
  funext world
  rw [lift, Watched.Run.bind_apply, bind_apply, lift]
  cases x world <;> rfl

theorem raising_bind (x : Watched.Run α) (next : α → Watched.Run (Option Value × Chain)) :
    raising (x >>= next) = lift x >>= fun a => raising (next a) := by
  rw [raising, lift_bind, bind_assoc]
  rfl

theorem eq_lift_pure (a : α) : (pure a : Run α) = lift (pure a) :=
  rfl

theorem eq_lift_throw (failure : Failure) : (fail failure : Run α) = lift (throw failure) :=
  rfl

theorem eq_raising_throw (failure : Failure) : (fail failure : Run Chain) = raising (throw failure) :=
  rfl

theorem eq_raising_end (locals : Chain) : pure locals = raising (pure (none, locals)) :=
  rfl

theorem eq_lift_get : (get : Run World) = lift get :=
  rfl

theorem eq_lift_bind {x : Watched.Run α} {y : Run α} {next : α → Watched.Run β}
    {next' : α → Run β} (h : y = lift x) (hnext : ∀ a, next' a = lift (next a)) :
    y >>= next' = lift (x >>= next) := by
  rw [lift_bind, h, funext hnext]

theorem eq_lift_withEntry {next : Nat → Watched.Run α} {next' : Nat → Run α}
    (hnext : ∀ entry, next' entry = lift (next entry)) :
    lift (Watched.Run.withEntry pure) >>= next' = lift (Watched.Run.withEntry next) := by
  have hentry : Watched.Run.withEntry next = Watched.Run.withEntry pure >>= next := rfl
  rw [hentry]
  exact eq_lift_bind rfl hnext

theorem eq_raising_bind {x : Watched.Run α} {y : Run α}
    {next : α → Watched.Run (Option Value × Chain)} {next' : α → Run Chain} (h : y = lift x)
    (hnext : ∀ a, next' a = raising (next a)) : y >>= next' = raising (x >>= next) := by
  rw [raising_bind, h, funext hnext]

section

variable {p : Prop} [Decidable p]

theorem eq_lift_ite {x x' : Watched.Run α} {y y' : Run α} (h : y = lift x) (h' : y' = lift x') :
    (if p then y else y') = lift (if p then x else x') := by
  by_cases hp : p
  · rwa [if_pos hp, if_pos hp]
  · rwa [if_neg hp, if_neg hp]

theorem eq_raising_ite {x x' : Watched.Run (Option Value × Chain)} {y y' : Run Chain}
    (h : y = raising x) (h' : y' = raising x') :
    (if p then y else y') = raising (if p then x else x') := by
  by_cases hp : p
  · rwa [if_pos hp, if_pos hp]
  · rwa [if_neg hp, if_neg hp]

theorem eq_lift_ite_bind {x x' : Watched.Run α} {y y' : Run α} {next : α → Watched.Run β}
    {next' : α → Run β} (h : y = lift x) (h' : y' = lift x') (hnext : ∀ a, next' a = lift (next a)) :
    (if p then y >>= next' else y' >>= next') =
      lift (if p then x >>= next else x' >>= next) :=
  eq_lift_ite (eq_lift_bind h hnext) (eq_lift_bind h' hnext)

theorem eq_raising_ite_bind {x x' : Watched.Run α} {y y' : Run α}
    {next : α → Watched.Run (Option Value × Chain)} {next' : α → Run Chain} (h : y = lift x)
    (h' : y' = lift x') (hnext : ∀ a, next' a = raising (next a)) :
    (if p then y >>= next' else y' >>= next') =
      raising (if p then x >>= next else x' >>= next) :=
  eq_raising_ite (eq_raising_bind h hnext) (eq_raising_bind h' hnext)

end

/-- Behind a statement that ends the function, the outcome is passed on; behind any other one, what
follows has a return if it throws one. -/
theorem eq_raising_next {x : Watched.Run (Option Value × Chain)} {y : Run Chain}
    {next : Option Value × Chain → Watched.Run (Option Value × Chain)} {next' : Chain → Run Chain}
    (h : y = raising x) (hend : ∀ locals, next' locals = raising (next (none, locals)))
    (houtcome : ∀ result locals, ∃ behind, next (some result, locals) =
      pure (some result, behind)) :
    y >>= next' = raising (x >>= next) := by
  rw [raising_bind, h, raising, bind_assoc]
  apply bind_congr
  intro outcome
  obtain ⟨_ | result, locals⟩ := outcome
  · exact hend locals
  · obtain ⟨behind, hnext⟩ := houtcome result locals
    rw [hnext]
    rfl

/-- Leaving a block drops its frame, whatever the outcome is. -/
theorem eq_raising_inside {place : Place} {block : Place → Watched.Run (Option Value × Chain)}
    {block' : Place → Run Chain} (h : ∀ entry, block' (place.enter entry) =
      raising (block (place.enter entry))) :
    inside place block' = raising (Watched.inside place block) := by
  have hentry : Watched.inside place block = Watched.Run.withEntry pure >>= fun entry =>
      block (place.enter entry) >>= fun outcome => pure (outcome.1, outcome.2.tail) := rfl
  rw [hentry]
  apply eq_raising_bind rfl
  intro entry
  apply eq_raising_next (h entry)
  · intro locals
    rfl
  · intro result locals
    exact ⟨locals.tail, rfl⟩

theorem resultOf_apply (name : String) (body : Run Chain) (world : World) :
    resultOf name body world =
      match body world with
      | .ok _ after => .ok .nil after
      | .error (.returned result) after =>
        (do
          lift (note 3 fun world => name ++ " returned " ++ world.textOf result)
          return result : Run Value) after
      | .error (.failed failure) after => .error (.failed failure) after := by
  have htry : ∀ (x : Run Value) (handle : Exit → Run Value), tryCatch x handle world =
      match x world with
      | .ok a after => .ok a after
      | .error exit after => handle exit after := by
    intro x handle
    change EStateM.tryCatch x handle world = _
    delta EStateM.tryCatch
    cases x world <;> rfl
  rw [resultOf, htry, bind_apply]
  cases body world with
  | ok locals after => rfl
  | error exit after => cases exit <;> rfl

/-- The return that leaves a body is its outcome, and a failure passes through. -/
theorem eq_lift_resultOf {name : String} {body : Watched.Run (Option Value × Chain)}
    {body' : Run Chain} (h : body' = raising body) :
    resultOf name body' = lift (do
      let (outcome, _) ← body
      match outcome with
      | some result =>
        note 3 fun world => name ++ " returned " ++ world.textOf result
        return result
      | none => return .nil) := by
  funext world
  rw [h, lift_bind, resultOf_apply, raising, bind_apply, bind_apply, lift]
  cases body world with
  | error failure after => rfl
  | ok outcome after =>
    obtain ⟨_ | result, locals⟩ := outcome
    · rfl
    · rfl

/-! ### Parts of expressions and statements -/

/-- Expressions do with some fuel what they do in watched runs. -/
def EvaluatesAlike (fuel : Nat) : Prop :=
  ∀ (place : Place) (node : Node), evaluate fuel place node = lift (Watched.evaluate fuel place node)

section

variable {fuel : Nat} {place : Place} {node : Node}

theorem eq_lift_evaluating {x : Watched.Run Value} {y : Run Value} (h : y = lift x) :
    evaluating place node y = lift (Watched.evaluating place node x) := by
  apply eq_lift_bind h
  intro value
  apply eq_lift_bind rfl
  intro _
  rfl

theorem binary_eq {symbol : String} {left right : Node} {type : Option Ty}
    (hevaluate : EvaluatesAlike fuel) :
    evaluate (fuel + 1) place (.binary symbol left right type) =
      lift (Watched.evaluate (fuel + 1) place (.binary symbol left right type)) := by
  have hright :
      (do
        let second ← evaluate fuel place right
        return Value.scalar (.boolean (← lift (perform place (.binary symbol left right type)
          (BlockScript.Run.requireBoolean second)))) : Run Value) =
      lift (do
        let second ← Watched.evaluate fuel place right
        return Value.scalar (.boolean (← perform place (.binary symbol left right type)
          (BlockScript.Run.requireBoolean second)))) := by
    apply eq_lift_bind (hevaluate place right)
    intro second
    apply eq_lift_bind rfl
    intro truth
    rfl
  apply eq_lift_evaluating
  apply eq_lift_bind (hevaluate place left)
  intro first
  apply eq_lift_ite
  · apply eq_lift_bind rfl
    intro holds
    exact eq_lift_ite hright (eq_lift_pure _)
  apply eq_lift_ite
  · apply eq_lift_bind rfl
    intro holds
    exact eq_lift_ite (eq_lift_pure _) hright
  -- any other operator
  apply eq_lift_bind (hevaluate place right)
  intro second
  rfl

theorem assignment_eq {receiver value : Node} (hevaluate : EvaluatesAlike fuel) :
    execute (fuel + 1) place (.assignment receiver value) =
      raising (Watched.execute (fuel + 1) place (.assignment receiver value)) := by
  apply eq_raising_bind (hevaluate place value)
  intro result
  cases receiver with
  | access name offset _ _ =>
    apply eq_raising_bind rfl
    intro slot
    apply eq_raising_ite
    · apply eq_raising_ite _ (eq_raising_throw _)
      apply eq_raising_bind rfl
      intro locals
      apply eq_raising_bind rfl
      intro _
      rfl
    · apply eq_raising_bind rfl
      intro handle
      apply eq_raising_bind (hevaluate place offset)
      intro position
      apply eq_raising_bind rfl
      intro index
      apply eq_raising_bind rfl
      intro _
      apply eq_raising_bind rfl
      intro _
      rfl
  | _ => rfl

/-- Whether a case is chosen is found out in the same way. -/
theorem eq_raising_matched {value : Node} {chosen : Value}
    {next : Bool → Watched.Run (Option Value × Chain)} {next' : Bool → Run Chain}
    (hevaluate : EvaluatesAlike fuel) (hnext : ∀ matched, next' matched = raising (next matched)) :
    (do
      let matched ← if value.isNull then pure true else do
        let found ← evaluate fuel place value
        let world ← get
        pure ((world.erase.datum found).same (world.erase.datum chosen))
      next' matched) =
    raising (do
      let matched ← if value.isNull then pure true else do
        let found ← Watched.evaluate fuel place value
        let world ← get
        pure ((world.erase.datum found).same (world.erase.datum chosen))
      next matched) := by
  apply eq_raising_ite
  · exact hnext true
  · apply eq_raising_bind (hevaluate place value)
    intro found
    apply eq_raising_bind eq_lift_get
    intro world
    exact hnext _

end

mutual

theorem evaluate_eq : ∀ (fuel : Nat) (place : Place) (node : Node),
    evaluate fuel place node = lift (Watched.evaluate fuel place node)
  | 0, _, _ => rfl
  | fuel + 1, place, node => by
    cases node with
    | literal value _ => exact eq_lift_evaluating rfl
    | group inner _ => exact eq_lift_evaluating (evaluate_eq fuel place inner)
    | binary symbol left right type => exact binary_eq (evaluate_eq fuel)
    | access name offset _ _ =>
      apply eq_lift_evaluating
      apply eq_lift_bind rfl
      intro slot
      apply eq_lift_ite (eq_lift_pure _)
      apply eq_lift_bind rfl
      intro handle
      apply eq_lift_bind (evaluate_eq fuel place offset)
      intro position
      apply eq_lift_bind rfl
      intro index
      rfl
    | call name arguments _ _ =>
      apply eq_lift_evaluating
      apply eq_lift_bind (evaluateAll_eq fuel place arguments)
      intro values
      apply eq_lift_bind rfl
      intro routine
      apply eq_lift_bind rfl
      intro _
      apply eq_lift_bind rfl
      intro _
      exact invoke_eq fuel place routine values
    | listLiteral values _ =>
      apply eq_lift_evaluating
      apply eq_lift_bind (evaluateAll_eq fuel place values)
      intro items
      rfl
    | _ => exact eq_lift_evaluating rfl

theorem evaluateAll_eq : ∀ (fuel : Nat) (place : Place) (nodes : List Node),
    evaluateAll fuel place nodes = lift (Watched.evaluateAll fuel place nodes)
  | 0, _, _ => rfl
  | _ + 1, _, [] => rfl
  | fuel + 1, place, node :: rest => by
    apply eq_lift_bind (evaluate_eq fuel place node)
    intro first
    apply eq_lift_bind (evaluateAll_eq fuel place rest)
    intro others
    rfl

theorem invoke_eq : ∀ (fuel : Nat) (place : Place) (routine : Routine) (arguments : List Value),
    invoke fuel place routine arguments = lift (Watched.invoke fuel place routine arguments)
  | 0, _, _, _ => rfl
  | _ + 1, _, .print, [] => rfl
  | _ + 1, _, .print, _ :: _ => rfl
  | fuel + 1, place, .defined name parameters body signature bindings, arguments => by
    apply eq_lift_ite _ (eq_lift_throw _)
    apply eq_lift_withEntry
    intro entry
    apply eq_lift_bind rfl
    intro locals
    apply eq_lift_bind rfl
    intro _
    exact eq_lift_resultOf (executeBlock_eq fuel (place.call entry locals) body)

theorem execute_eq : ∀ (fuel : Nat) (place : Place) (node : Node),
    execute fuel place node = raising (Watched.execute fuel place node)
  | 0, _, _ => rfl
  | fuel + 1, place, node => by
    cases node with
    | discard expression =>
      apply eq_raising_bind (evaluate_eq fuel place expression)
      intro _
      rfl
    | declaration name _ value binding =>
      apply eq_raising_ite_bind (eq_lift_pure _) (evaluate_eq fuel place value)
      intro initial
      apply eq_raising_bind rfl
      intro locals
      apply eq_raising_bind rfl
      intro _
      rfl
    | assignment receiver value => exact assignment_eq (evaluate_eq fuel)
    | branch condition thenBody elseBody =>
      apply eq_raising_bind (evaluate_eq fuel place condition)
      intro chosen
      apply eq_raising_bind rfl
      intro holds
      apply eq_raising_bind rfl
      intro _
      apply eq_raising_inside
      intro entry
      exact executeBlock_eq fuel (place.enter entry) _
    | switch condition cases =>
      apply eq_raising_bind (evaluate_eq fuel place condition)
      intro chosen
      exact executeCases_eq fuel place chosen cases
    | loop condition body => exact executeLoop_eq fuel place condition body
    | ret value =>
      apply eq_raising_bind (evaluate_eq fuel place value)
      intro result
      rfl
    | _ => rfl

theorem executeBlock_eq : ∀ (fuel : Nat) (place : Place) (nodes : List Node),
    executeBlock fuel place nodes = raising (Watched.executeBlock fuel place nodes)
  | 0, _, _ => rfl
  | _ + 1, _, [] => rfl
  | fuel + 1, place, statement :: rest => by
    apply eq_raising_next (execute_eq fuel place statement)
    · intro locals
      exact executeBlock_eq fuel { place with locals } rest
    · intro result locals
      exact ⟨locals, rfl⟩

theorem executeCases_eq : ∀ (fuel : Nat) (place : Place) (chosen : Value) (nodes : List Node),
    executeCases fuel place chosen nodes = raising (Watched.executeCases fuel place chosen nodes)
  | 0, _, _, _ => rfl
  | _ + 1, _, _, [] => rfl
  | fuel + 1, place, chosen, node :: rest => by
    cases node with
    | case value body =>
      apply eq_raising_matched (evaluate_eq fuel)
      intro matched
      apply eq_raising_ite _ (executeCases_eq fuel place chosen rest)
      apply eq_raising_inside
      intro entry
      exact executeBlock_eq fuel (place.enter entry) body
    | declaration | assignment | ret | global =>
      apply eq_raising_matched (evaluate_eq fuel)
      intro matched
      exact eq_raising_ite (eq_raising_throw _) (executeCases_eq fuel place chosen rest)
    | _ => rfl

theorem executeLoop_eq : ∀ (fuel : Nat) (place : Place) (condition : Node) (body : List Node),
    executeLoop fuel place condition body = raising (Watched.executeLoop fuel place condition body)
  | 0, _, _, _ => rfl
  | fuel + 1, place, condition, body => by
    apply eq_raising_bind (evaluate_eq fuel place condition)
    intro chosen
    apply eq_raising_bind rfl
    intro holds
    apply eq_raising_ite _ (eq_raising_end _)
    apply eq_raising_next
    · apply eq_raising_inside
      intro entry
      exact executeBlock_eq fuel (place.enter entry) body
    · intro locals
      exact executeLoop_eq fuel { place with locals } condition body
    · intro result locals
      exact ⟨locals, rfl⟩

end

/-! ### Programs -/

theorem executeGlobal_eq (fuel : Nat) (node : Node) :
    executeGlobal fuel node = lift (Watched.executeGlobal fuel node) := by
  cases node with
  | global name mutable typeName value isList binding =>
    apply eq_lift_ite_bind (eq_lift_pure _) (evaluate_eq fuel .outermost value)
    intro initial
    apply eq_lift_bind rfl
    intro _
    rfl
  | declaration | assignment | ret | case =>
    apply eq_lift_ite_bind (eq_lift_pure _) (evaluate_eq fuel .outermost _)
    intro _
    rfl
  | _ => rfl

theorem executeGlobals_eq (fuel : Nat) (nodes : List Node) :
    nodes.forM (executeGlobal fuel) = lift (nodes.forM (Watched.executeGlobal fuel)) := by
  induction nodes with
  | nil => rfl
  | cons node rest ih =>
    apply eq_lift_bind (executeGlobal_eq fuel node)
    intro _
    exact ih

/-- A program with exits does what a watched program does, and has no return left at its end. -/
theorem runProgram_eq (fuel : Nat) (bindings : List (List Binding)) (node : Node) :
    runProgram fuel bindings node = lift (Watched.runProgram fuel bindings node) := by
  cases node with
  | program globals functions =>
    apply eq_lift_bind rfl
    intro _
    apply eq_lift_bind (executeGlobals_eq fuel globals)
    intro _
    apply eq_lift_bind rfl
    intro _
    -- the call of the main function is one step of watched programs
    have hcall : Watched.callByName fuel "main" 0 [] =
        findFunction .outermost "main" 0 >>= fun routine =>
          Watched.invoke fuel .outermost routine [] := rfl
    rw [hcall, bind_assoc]
    apply eq_lift_bind rfl
    intro routine
    apply eq_lift_bind (invoke_eq fuel .outermost routine [])
    intro result
    apply eq_lift_bind rfl
    intro _
    rfl
  | _ => rfl

/-! ### Runs that are not watched -/

/-- A result with exits, without what is kept for watching. -/
def eraseResult : EStateM.Result Exit World α → EStateM.Result Exit BlockScript.World α
  | .ok a world => .ok a world.erase
  | .error exit world => .error exit world.erase

/-- A result of a run as a result with exits, none of which is a return. -/
def withoutReturn : EStateM.Result Failure BlockScript.World α →
    EStateM.Result Exit BlockScript.World α
  | .ok a world => .ok a world
  | .error failure world => .error (.failed failure) world

/-- What a computation with exits does, if it has none that is a return. -/
theorem eraseResult_lift {x : Watched.Run α} {plain : BlockScript.Run α} (h : Erases id x plain)
    (world : World) : eraseResult (lift x world) = withoutReturn (plain world.erase) := by
  rw [← h world, lift]
  cases x world <;> rfl

end Watched.Exiting

/-- Other entries can be taken back. -/
theorem Frame.map_map_eq {V W F G : Type} {f : V → W} {f' : W → V} {g : F → G} {g' : G → F}
    (hf : ∀ v, f' (f v) = v) (hg : ∀ r, g' (g r) = r) (frame : Frame V F) :
    (frame.map f g).map f' g' = frame := by
  simp [Frame.map, Function.comp_def, hf, hg]

namespace Watched

/-- A variable of which it is not known what made it. -/
def Slot.unknown (slot : BlockScript.Slot) : Slot :=
  { value := slot.value, mutable := slot.mutable, origin := none, entry := 0 }

/-- A function that was not analyzed. -/
def Routine.unknown : BlockScript.Routine → Routine
  | .print => .print
  | .defined name parameters body => .defined name parameters body none []

theorem Routine.erase_unknown (routine : BlockScript.Routine) :
    (Routine.unknown routine).erase = routine := by
  cases routine <;> rfl

/-- Every function can be watched. -/
theorem Routine.exists_erase_eq (routine : BlockScript.Routine) :
    ∃ watched : Routine, watched.erase = routine :=
  ⟨Routine.unknown routine, Routine.erase_unknown routine⟩

/-- Every state can be watched from then on. -/
theorem World.exists_erase_eq (world : BlockScript.World) :
    ∃ watched : World, watched.erase = world := by
  have htop : (world.top.map Slot.unknown Routine.unknown).map Slot.erase Routine.erase =
      world.top :=
    Frame.map_map_eq (fun _ => rfl) Routine.erase_unknown world.top
  refine ⟨{ top := world.top.map Slot.unknown Routine.unknown, heap := world.heap,
            transcript := world.transcript, next := 1, points := [] }, ?_⟩
  rw [World.erase, Frame.erase, htop]

end Watched

end BlockScript

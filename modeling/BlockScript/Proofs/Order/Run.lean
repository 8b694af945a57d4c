import BlockScript.Proofs.Order.Steps
import BlockScript.Proofs.Watched.Depth
/-!
# Steps in runs

What happens at the depth of a statement while it is executed are the steps of the statement itself:
what functions do that are called is deeper. If the statement fails, its calls were made in order as
far as it came.

## Main definitions

* `Watched.stepsAt` — the steps that were made at a depth
* `Watched.Does`, `Watched.Idle` — computations that make some steps, and none

## Main results

* `Watched.does_evaluate` — the steps of an expression
* `Watched.stepsAt_execute` — the steps of a statement
-/

namespace BlockScript

namespace Watched

open BlockScript.Watched.Run

/-- The step that something is which happened at a depth. -/
def Point.step? (depth : Nat) (point : Point) : Option Event :=
  if point.place.depth = depth then
    match point.event with
    | .evaluated node value => some (.evaluated node value)
    | .invoked node routine => some (.invoked node routine)
    | _ => none
  else none

/-- The steps that were made at a depth, in order; what happened is listed with the latest first. -/
def stepsAt (depth : Nat) (points : List Point) : List Event :=
  (points.filterMap (Point.step? depth)).reverse

variable {α β : Type} {depth : Nat} {x : Run α} {next : α → Run β} {P : α → List Event → Prop}
  {Q : α → β → List Event → Prop} {R : β → List Event → Prop} {all rest : List Node}
  {place : Place} {node : Node}

theorem stepsAt_append (later points : List Point) :
    stepsAt depth (later ++ points) = stepsAt depth points ++ stepsAt depth later := by
  rw [stepsAt, List.filterMap_append, List.reverse_append]
  rfl

theorem stepsAt_eq_nil {points : List Point} (h : ∀ point ∈ points, point.step? depth = none) :
    stepsAt depth points = [] := by
  rw [stepsAt, List.filterMap_eq_nil_iff.mpr h]
  rfl

/-! ### Computations in a row -/

/-- At a depth, a computation makes some of the given calls in their order, and if it has a result,
its steps are as wanted. -/
def Does (depth : Nat) (x : Run α) (P : α → List Event → Prop) (all : List Node) : Prop :=
  ∀ world, ∃ points, pointsBehind (x world) = points ++ world.points ∧
    (callsOf (stepsAt depth points)).Sublist all ∧
    ∀ a after, x world = .ok a after → P a (stepsAt depth points)

theorem does_throw {failure : Failure} : Does depth (throw failure : Run α) P all :=
  fun _ => ⟨[], rfl, List.nil_sublist _, fun _ _ h => nomatch h⟩

theorem does_pure {a : α} (h : P a []) : Does depth (pure a) P all :=
  fun _ => ⟨[], rfl, List.nil_sublist _, fun _ _ hrun => by cases hrun; exact h⟩

theorem Does.mono {P' : α → List Event → Prop} (h : Does depth x P all)
    (hP : ∀ a steps, P a steps → P' a steps) : Does depth x P' all := by
  intro world
  obtain ⟨points, hpoints, hcalls, hresult⟩ := h world
  exact ⟨points, hpoints, hcalls, fun a after hrun => hP a _ (hresult a after hrun)⟩

/-- First some steps, and then others. -/
theorem Does.bind (h : Does depth x P all) (hnext : ∀ a, Does depth (next a) (Q a) rest)
    (hR : ∀ a b steps others, P a steps → Q a b others → R b (steps ++ others)) :
    Does depth (x >>= next) R (all ++ rest) := by
  intro world
  obtain ⟨points, hpoints, hcalls, hresult⟩ := h world
  rw [bind_apply]
  cases hrun : x world with
  | error failure after =>
    -- the second computation does not begin, so its calls are not made
    rw [hrun] at hpoints
    exact ⟨points, hpoints, hcalls.trans (List.sublist_append_left ..), fun _ _ h => nomatch h⟩
  | ok a after =>
    obtain ⟨later, hlater, hothers, hresult'⟩ := hnext a after
    rw [hrun] at hpoints
    refine ⟨later ++ points, ?_, ?_, fun b behind hrun' => ?_⟩
    · rw [List.append_assoc, ← hpoints]
      exact hlater
    · rw [stepsAt_append, callsOf_append]
      exact hcalls.append hothers
    · rw [stepsAt_append]
      exact hR _ _ _ _ (hresult a after hrun) (hresult' b behind hrun')

theorem does_ite {p : Prop} [Decidable p] {y : Run α} (h : p → Does depth x P all)
    (h' : ¬p → Does depth y P all) : Does depth (if p then x else y) P all := by
  by_cases hp : p
  · rw [if_pos hp]
    exact h hp
  · rw [if_neg hp]
    exact h' hp

/-! ### No steps -/

/-- At a depth, a computation makes no steps. -/
abbrev Idle (depth : Nat) (x : Run α) : Prop :=
  Does depth x (fun _ steps => steps = []) []

/-- First no steps, and then some. -/
theorem Idle.bind (h : Idle depth x) (hnext : ∀ a, Does depth (next a) R all) :
    Does depth (x >>= next) R all :=
  Does.bind h hnext fun _ _ _ _ hnil hsteps => hnil ▸ hsteps

/-- First some steps, and then no more. -/
theorem Does.bind_idle (h : Does depth x P all) (hnext : ∀ a, Idle depth (next a))
    (hR : ∀ a b steps, P a steps → R b steps) : Does depth (x >>= next) R all := by
  rw [← List.append_nil all]
  refine h.bind hnext fun a b steps others hsteps hnil => ?_
  rw [hnil, List.append_nil]
  exact hR a b steps hsteps

theorem Deep.idle (h : Deep (depth + 1) x) : Idle depth x := by
  intro world
  obtain ⟨points, hpoints, hdeep⟩ := h world
  have hnil : stepsAt depth points = [] :=
    stepsAt_eq_nil fun point hmem => if_neg (Nat.ne_of_gt (hdeep point hmem))
  exact ⟨points, hpoints, hnil ▸ .refl [], fun _ _ _ => hnil⟩

theorem Quiet.idle (h : Quiet x) : Idle depth x :=
  h.deep.idle

theorem idle_pure {a : α} : Idle depth (pure a) :=
  does_pure rfl

theorem idle_get {k : World → Run α} (h : ∀ world, Idle depth (k world)) : Idle depth (get >>= k) :=
  fun world => h world world

theorem does_report {event : Event} {steps : List Event}
    (h : ∀ top heap, stepsAt depth [{ event, place, top, heap }] = steps) :
    Does depth (report place event) (fun _ own => own = steps) (callsOf steps) :=
  fun world => ⟨[_], rfl, h world.top world.heap ▸ .refl _, fun _ _ _ => h _ _⟩

/-- Most of what happens is no step. -/
theorem idle_report {event : Event}
    (h : ∀ top heap, Point.step? depth { event, place, top, heap } = none) :
    Idle depth (report place event) :=
  does_report fun top heap => stepsAt_eq_nil (List.forall_mem_singleton.mpr (h top heap))

theorem idle_changed : Idle depth (report place .changed) :=
  idle_report fun _ _ => ite_self _

theorem idle_resolved {slot : Slot} : Idle depth (report place (.resolved node slot)) :=
  idle_report fun _ _ => ite_self _

theorem idle_perform {x : BlockScript.Run α} : Idle depth (perform place node x) := by
  intro world
  unfold perform
  cases x world.erase with
  | ok a after => exact ⟨[], rfl, .refl [], fun _ _ _ => rfl⟩
  | error failure after =>
    refine ⟨[_], rfl, ?_, fun _ _ h => nomatch h⟩
    rw [stepsAt_eq_nil (List.forall_mem_singleton.mpr (by exact ite_self _))]
    exact .refl []

/-- What comes behind a condition can rely on its value. -/
theorem does_condition {value : Value} {next : Bool → Run α}
    (h : ∀ holds, value = .scalar (.boolean holds) → Does depth (next holds) P all) :
    Does depth (do next (← perform place node (BlockScript.Run.requireBoolean value))) P all := by
  have hrefused : ∀ e : EvaluationError,
      Does depth (do next (← perform place node (BlockScript.Run.refuse e))) P all := by
    refine fun e world => ⟨[_], rfl, ?_, fun _ _ hrun => nomatch hrun⟩
    rw [stepsAt_eq_nil (List.forall_mem_singleton.mpr (by exact ite_self _))]
    exact List.nil_sublist all
  cases value with
  | list handle => exact hrefused _
  | scalar value =>
    cases value with
    | boolean holds => exact fun world => h holds rfl (world.keep world.erase)
    | _ => exact hrefused _

theorem idle_findVariable {name : String} : Idle depth (findVariable place node name) :=
  idle_get fun _ => quiet_ofScope.idle.bind fun _ => idle_resolved.bind fun _ => idle_pure

theorem idle_declare {name : String} {slot : Slot} : Idle depth (declare place name slot) :=
  quiet_define.idle.bind fun _ => idle_changed.bind fun _ => idle_pure

/-! ### Expressions -/

/-- A computation of the value of an expression makes the steps of the expression. -/
def DoesEvaluate (place : Place) (x : Run Value) (node : Node) : Prop :=
  Does place.depth x (fun value steps => ∃ m, Evaluates m node value steps) node.calls

theorem stepsAt_evaluated {value : Value} {top : Frame} {heap : Array (List Value)} :
    stepsAt place.depth [{ event := .evaluated node value, place, top, heap }] =
      [.evaluated node value] := by
  rw [stepsAt, List.filterMap_cons_some (b := .evaluated node value) (by exact if_pos rfl)]
  rfl

theorem stepsAt_invoked {routine : Routine} {top : Frame} {heap : Array (List Value)} :
    stepsAt place.depth [{ event := .invoked node routine, place, top, heap }] =
      [.invoked node routine] := by
  rw [stepsAt, List.filterMap_cons_some (b := .invoked node routine) (by exact if_pos rfl)]
  rfl

theorem does_evaluating {x : Run Value}
    (h : Does place.depth x (fun value steps => ∃ m, Computes m node value steps) node.calls) :
    DoesEvaluate place (evaluating place node x) node := by
  have hreport : ∀ value, Does place.depth (do
      report place (.evaluated node value)
      return value) (fun own steps => own = value ∧ steps = [.evaluated node value]) [] := by
    refine fun value world => ⟨[_], rfl, ?_, fun own after hrun => ?_⟩
    · rw [stepsAt_evaluated]
      exact .refl []
    · cases hrun
      exact ⟨rfl, stepsAt_evaluated⟩
  rw [DoesEvaluate, ← List.append_nil node.calls]
  refine h.bind hreport ?_
  rintro value _ steps _ ⟨m, hsteps⟩ ⟨rfl, rfl⟩
  exact ⟨m, .evaluated hsteps⟩

/-- With some fuel expressions make their steps. -/
def EvaluatesAs (fuel : Nat) : Prop :=
  ∀ (place : Place) (node : Node), DoesEvaluate place (evaluate fuel place node) node

section

variable {fuel : Nat}

/-- The steps behind the left operand. -/
inductive Continues (symbol : String) (first : Value) (right : Node) : Value → List Event → Prop
  | decided : Decides symbol first → Continues symbol first right first []
  | both {m second value steps} : ¬Decides symbol first → Evaluates m right second steps →
      Continues symbol first right value steps

theorem does_binary {symbol : String} {left right : Node} {type : Option Ty}
    (hevaluate : EvaluatesAs fuel) :
    DoesEvaluate place (evaluate (fuel + 1) place (.binary symbol left right type))
      (.binary symbol left right type) := by
  have hright : ∀ {first} {next : Value → Run Value}, ¬Decides symbol first →
      (∀ second, Idle place.depth (next second)) →
      Does place.depth (evaluate fuel place right >>= next) (Continues symbol first right)
        right.calls := fun hdecides hnext =>
    (hevaluate place right).bind_idle hnext fun _ _ _ ⟨_, h⟩ => .both hdecides h
  have hboolean : ∀ second, Idle place.depth (do
      return Value.scalar (.boolean (← perform place (.binary symbol left right type)
        (BlockScript.Run.requireBoolean second)))) := fun _ =>
    idle_perform.bind fun _ => idle_pure
  refine does_evaluating ((hevaluate place left).bind
    (Q := fun first => Continues symbol first right) (fun first => ?_) ?_)
  · refine does_ite (fun hand => ?_) fun hand => does_ite (fun hor => ?_) fun hor => ?_
    · subst hand
      refine does_condition fun holds hholds => ?_
      subst hholds
      -- `false` decides a conjunction
      cases holds with
      | true => exact hright (by simp) hboolean
      | false => exact does_pure (.decided (by simp))
    · subst hor
      refine does_condition fun holds hholds => ?_
      subst hholds
      -- `true` decides a disjunction
      cases holds with
      | true => exact does_pure (.decided (by simp))
      | false => exact hright (by simp) hboolean
    · -- other operators need both operands
      refine hright (fun hdecides => ?_) fun _ => idle_perform
      exact hdecides.elim (fun h => hand h.1) fun h => hor h.1
  rintro first value steps others ⟨m, hleft⟩ (hdecides | ⟨hdecides, hright⟩)
  · exact ⟨m + 1, (List.append_nil steps).symm ▸ .shortened hleft hdecides⟩
  · exact ⟨_, .binary hleft hdecides hright⟩

theorem does_access {name : String} {offset : Node} {type : Option Ty} {binding : Option Binding}
    (hevaluate : EvaluatesAs fuel) :
    DoesEvaluate place (evaluate (fuel + 1) place (.access name offset type binding))
      (.access name offset type binding) := by
  refine does_evaluating (idle_findVariable.bind fun slot => ?_)
  refine does_ite (fun hnull => ?_) fun _ => idle_perform.bind fun handle => ?_
  · cases offset with
    | null => exact does_pure ⟨0, .variable⟩
    | _ => cases hnull
  · refine (hevaluate place offset).bind_idle (fun _ => idle_perform.bind fun _ => idle_perform) ?_
    exact fun _ _ _ ⟨m, h⟩ => ⟨m, .element h⟩

/-- What a function does that is called is deeper than the call. -/
theorem does_called {name : String} {values : List Value} :
    Does place.depth (do
      let routine ← findFunction place name values.length
      report place (.invoked node routine)
      note 3 fun world => "call " ++ name ++ "(" ++ world.textsOf values ++ ")"
      invoke fuel place routine values)
      (fun _ steps => ∃ routine, steps = [.invoked node routine]) [node] := by
  refine quiet_findFunction.idle.bind fun routine => ?_
  have hreport : Does place.depth (report place (.invoked node routine))
      (fun _ steps => steps = [.invoked node routine]) [node] :=
    does_report fun _ _ => stepsAt_invoked
  refine hreport.bind_idle (fun _ => quiet_note.idle.bind fun _ => ?_) fun _ _ _ h => ⟨routine, h⟩
  exact (deep_invoke fuel place routine values).idle

end

mutual

theorem does_evaluate : ∀ fuel : Nat, EvaluatesAs fuel
  | 0, _, _ => does_throw
  | fuel + 1, place, node => by
    cases node with
    | literal => exact does_evaluating (does_pure ⟨0, .literal⟩)
    | group inner _ =>
      exact does_evaluating ((does_evaluate fuel place inner).mono fun _ _ ⟨m, h⟩ => ⟨m, .group h⟩)
    | binary => exact does_binary (does_evaluate fuel)
    | access => exact does_access (does_evaluate fuel)
    | call name arguments type callee =>
      refine does_evaluating ((does_evaluateAll fuel place arguments).bind
        (fun _ => does_called) ?_)
      rintro values value steps _ ⟨m, h⟩ ⟨routine, rfl⟩
      exact ⟨m, .call h⟩
    | listLiteral values _ =>
      refine does_evaluating ((does_evaluateAll fuel place values).bind_idle
        (fun _ => idle_perform) ?_)
      exact fun _ _ _ ⟨m, h⟩ => ⟨m, .listLiteral h⟩
    | _ => exact fun _ => ⟨[], rfl, List.nil_sublist _, fun _ _ hrun => nomatch hrun⟩

theorem does_evaluateAll : ∀ (fuel : Nat) (place : Place) (nodes : List Node),
    Does place.depth (evaluateAll fuel place nodes)
      (fun _ steps => ∃ m, EvaluatesAll m nodes steps) (Node.callsInAll nodes)
  | 0, _, _ => does_throw
  | _ + 1, _, [] => does_pure ⟨0, .nil⟩
  | fuel + 1, place, node :: rest => by
    refine (does_evaluate fuel place node).bind (fun _ =>
      (does_evaluateAll fuel place rest).bind_idle (fun _ => idle_pure) fun _ _ _ h => h) ?_
    rintro value values steps others ⟨m, h⟩ ⟨n, hrest⟩
    exact ⟨m + n, .cons h hrest⟩

end

/-! ### Statements -/

section

variable {fuel : Nat}

/-- A computation of a statement makes the steps of the statement. -/
def DoesExecute (place : Place) (x : Run (Option Value × Chain)) (statement : Node) : Prop :=
  Does place.depth x (fun _ steps => ∃ m, Executes m statement steps) statement.calls

theorem does_declaration {name : String} {typeName : Option String} {value : Node}
    {binding : Option Binding} :
    DoesExecute place (execute (fuel + 1) place (.declaration name typeName value binding))
      (.declaration name typeName value binding) := by
  have hdeclare : ∀ initial, Idle place.depth (do
      let entry := place.entries.headD 0
      let locals ← declare place name
        { value := initial, mutable := true, origin := binding, entry }
      note 2 fun world => "declare " ++ name ++ " = " ++ world.textOf initial
      return ((none : Option Value), locals)) := fun _ =>
    idle_declare.bind fun _ => quiet_note.idle.bind fun _ => idle_pure
  refine does_ite (fun hnull => ?_) fun _ => ?_
  · cases value with
    | null => exact (hdeclare .nil).mono fun _ _ hnil => ⟨0, hnil ▸ .undefined⟩
    | _ => cases hnull
  · refine (does_evaluate fuel place value).bind_idle hdeclare ?_
    exact fun _ _ _ ⟨m, h⟩ => ⟨m, .declaration h⟩

/-- The value of a variable is changed behind the steps. -/
theorem does_assignment_variable {name : String} {type : Option Ty} {binding : Option Binding}
    {value : Node} :
    DoesExecute place
      (execute (fuel + 1) place (.assignment (.access name .null type binding) value))
      (.assignment (.access name .null type binding) value) := by
  rw [DoesExecute, Node.calls_assignment_variable]
  refine (does_evaluate fuel place value).bind_idle (fun result => ?_)
    fun _ _ _ ⟨m, h⟩ => ⟨m, .assignment h⟩
  refine idle_findVariable.bind fun slot => does_ite (fun _ => ?_) fun hoffset => absurd rfl hoffset
  refine does_ite (fun _ => quiet_assign.idle.bind fun _ => ?_) fun _ => does_throw
  exact idle_changed.bind fun _ => idle_pure

/-- The offset is evaluated behind the value. -/
theorem does_assignment_element {name : String} {offset : Node} {type : Option Ty}
    {binding : Option Binding} {value : Node} (hoffset : ¬offset.isNull = true) :
    DoesExecute place
      (execute (fuel + 1) place (.assignment (.access name offset type binding) value))
      (.assignment (.access name offset type binding) value) := by
  refine (does_evaluate fuel place value).bind
    (Q := fun _ _ steps => ∃ n position, Evaluates n offset position steps) (fun result => ?_) ?_
  · refine idle_findVariable.bind fun slot => ?_
    refine does_ite (fun hnull => absurd hnull hoffset) fun _ => idle_perform.bind fun handle => ?_
    refine (does_evaluate fuel place offset).bind_idle (fun position => ?_)
      fun position _ _ ⟨n, h⟩ => ⟨n, position, h⟩
    refine idle_perform.bind fun index => idle_perform.bind fun _ => ?_
    exact idle_changed.bind fun _ => idle_pure
  · rintro result _ steps others ⟨m, h⟩ ⟨n, position, hothers⟩
    exact ⟨m + n, .element h hothers⟩

theorem does_assignment {receiver value : Node} :
    DoesExecute place (execute (fuel + 1) place (.assignment receiver value))
      (.assignment receiver value) := by
  cases receiver with
  | access name offset =>
    by_cases hoffset : offset.isNull = true
    · cases offset with
      | null => exact does_assignment_variable
      | _ => cases hoffset
    · exact does_assignment_element hoffset
  | _ =>
    -- nothing else can be assigned to, which is found out behind the value
    exact (does_evaluate fuel place value).bind (Q := fun _ _ _ => False) (fun _ => does_throw)
      fun _ _ _ _ _ hnone => hnone.elim

theorem does_execute {statement : Node} (h : statement.isSimple = true) :
    DoesExecute place (execute fuel place statement) statement := by
  cases fuel with
  | zero => exact does_throw
  | succ fuel =>
    cases statement with
    | discard expression =>
      refine (does_evaluate fuel place expression).bind_idle (fun _ => idle_pure) ?_
      exact fun _ _ _ ⟨m, h⟩ => ⟨m, .discard h⟩
    | declaration => exact does_declaration
    | assignment => exact does_assignment
    | ret value =>
      refine (does_evaluate fuel place value).bind_idle (fun _ => idle_pure) ?_
      exact fun _ _ _ ⟨m, h⟩ => ⟨m, .ret h⟩
    | _ => cases h

end

/-- However a statement is executed, it makes some of its calls in their order; and if it succeeds,
it makes its steps. -/
theorem stepsAt_execute {statement : Node} (h : statement.isSimple = true) (fuel : Nat)
    (place : Place) (world : World) :
    let result := execute fuel place statement world
    ∃ points, pointsBehind result = points ++ world.points ∧
      (callsOf (stepsAt place.depth points)).Sublist statement.calls ∧
      ∀ outcome after, result = .ok outcome after →
        ∃ skipped, Executes skipped statement (stepsAt place.depth points) :=
  does_execute h world

end Watched

end BlockScript

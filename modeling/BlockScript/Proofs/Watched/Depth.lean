import BlockScript.Proofs.Watched.Program
/-!
# Calls are deeper

While a function is executed, the functions that wait for its end are on record. So whatever happens
in a call happens deeper than the call itself, and what an expression or a statement does of its own
can be told apart from what the functions do that it calls.

## Main definitions

* `Watched.Place.depth` — how many functions wait
* `Watched.Quiet`, `Watched.Deep` — computations that report nothing, and nothing above a depth

## Main results

* `Watched.deep_evaluate`, `Watched.deep_invoke` — what is reported during expressions and calls
-/

namespace BlockScript

namespace Watched

open BlockScript.Watched.Run

/-- How many functions wait for a call to end. -/
def Place.depth (place : Place) : Nat :=
  place.callers.length

variable {α β : Type} {depth : Nat} {x : Run α} {next : α → Run β}

/-- A computation reports nothing. -/
def Quiet (x : Run α) : Prop :=
  ∀ world, pointsBehind (x world) = world.points

/-- What a computation reports happens at the given depth or deeper. -/
def Deep (depth : Nat) (x : Run α) : Prop :=
  ∀ world, ∃ points, pointsBehind (x world) = points ++ world.points ∧
    ∀ point ∈ points, depth ≤ point.place.depth

/-! ### Computations that report nothing -/

theorem quiet_pure {a : α} : Quiet (pure a) :=
  fun _ => rfl

theorem quiet_throw {failure : Failure} : Quiet (throw failure : Run α) :=
  fun _ => rfl

theorem quiet_bind (h : Quiet x) (hnext : ∀ a, Quiet (next a)) : Quiet (x >>= next) := by
  intro world
  have hx := h world
  rw [bind_apply]
  cases hrun : x world with
  | ok a after =>
    rw [hrun] at hx
    exact (hnext a after).trans hx
  | error failure after =>
    rw [hrun] at hx
    exact hx

theorem quiet_ite {p : Prop} [Decidable p] {y : Run α} (h : Quiet x) (h' : Quiet y) :
    Quiet (if p then x else y) := by
  split
  · exact h
  · exact h'

theorem quiet_get {k : World → Run α} (h : ∀ world, Quiet (k world)) : Quiet (get >>= k) :=
  fun world => h world world

theorem quiet_modify {change : World → World} (h : ∀ world, (change world).points = world.points) :
    Quiet (modify change) :=
  h

theorem quiet_note {level : Int} {text : BlockScript.World → String} : Quiet (note level text) :=
  quiet_modify fun _ => rfl

theorem quiet_ofScope {found : Except ScopeError α} : Quiet (ofScope found) := by
  cases found with
  | ok result => exact quiet_pure
  | error e => exact quiet_throw

theorem quiet_findFunction {place : Place} {name : String} {arity : Nat} :
    Quiet (findFunction place name arity) :=
  quiet_get fun _ => quiet_ofScope

theorem quiet_define {locals : Chain} {name : String} {slot : Slot} :
    Quiet (define locals name slot) := by
  cases locals with
  | nil =>
    intro world
    rw [define, get_bind_apply, bind_apply]
    cases world.top.defineVariable name slot <;> rfl
  | cons inner outer => exact quiet_bind quiet_ofScope fun _ => quiet_pure

theorem quiet_assign {locals : Chain} {name : String} {value : Value} :
    Quiet (assign locals name value) :=
  quiet_ite quiet_pure (quiet_bind (quiet_modify fun _ => rfl) fun _ => quiet_pure)

theorem quiet_bindParameters {entry : Nat} {parameters : List String} : ∀ {arguments : List Value}
    {bindings : List Binding} {locals : Chain},
    Quiet (bindParameters entry parameters arguments bindings locals) := by
  induction parameters with
  | nil => exact quiet_pure
  | cons parameter rest ih =>
    intro arguments bindings locals
    cases arguments with
    | nil => exact quiet_pure
    | cons argument others => exact quiet_bind quiet_define fun _ => ih

/-! ### Computations that report nothing above a depth -/

theorem Quiet.deep (h : Quiet x) : Deep depth x :=
  fun world => ⟨[], h world, fun _ hmem => absurd hmem List.not_mem_nil⟩

theorem Deep.mono {shallow : Nat} (h : Deep depth x) (hle : shallow ≤ depth) : Deep shallow x := by
  intro world
  obtain ⟨points, hpoints, hdeep⟩ := h world
  exact ⟨points, hpoints, fun point hmem => hle.trans (hdeep point hmem)⟩

theorem deep_pure {a : α} : Deep depth (pure a) :=
  quiet_pure.deep

theorem deep_throw {failure : Failure} : Deep depth (throw failure : Run α) :=
  quiet_throw.deep

theorem deep_bind (h : Deep depth x) (hnext : ∀ a, Deep depth (next a)) :
    Deep depth (x >>= next) := by
  intro world
  obtain ⟨points, hpoints, hdeep⟩ := h world
  rw [bind_apply]
  cases hrun : x world with
  | ok a after =>
    obtain ⟨later, hlater, hdeep'⟩ := hnext a after
    rw [hrun] at hpoints
    refine ⟨later ++ points, ?_, List.forall_mem_append.mpr ⟨hdeep', hdeep⟩⟩
    rw [List.append_assoc, ← hpoints]
    exact hlater
  | error failure after =>
    rw [hrun] at hpoints
    exact ⟨points, hpoints, hdeep⟩

theorem deep_ite {p : Prop} [Decidable p] {y : Run α} (h : Deep depth x) (h' : Deep depth y) :
    Deep depth (if p then x else y) := by
  split
  · exact h
  · exact h'

theorem deep_get {k : World → Run α} (h : ∀ world, Deep depth (k world)) : Deep depth (get >>= k) :=
  fun world => h world world

theorem deep_withEntry {next : Nat → Run α} (h : ∀ entry, Deep depth (next entry)) :
    Deep depth (withEntry next) :=
  fun world => h world.next { world with next := world.next + 1 }

theorem deep_see {place : Place} (h : depth ≤ place.depth) (world : World) (event : Event) :
    ∃ points, (world.see place event).points = points ++ world.points ∧
      ∀ point ∈ points, depth ≤ point.place.depth :=
  ⟨[_], rfl, List.forall_mem_singleton.mpr h⟩

theorem deep_report {place : Place} (h : depth ≤ place.depth) {event : Event} :
    Deep depth (report place event) :=
  fun world => deep_see h world event

/-- The local variables make no difference. -/
theorem deep_changed {place : Place} {locals : Chain} (h : depth ≤ place.depth) :
    Deep depth (report { place with locals } .changed) := by
  have hdepth : depth ≤ ({ place with locals } : Place).depth := h
  exact deep_report hdepth

theorem deep_perform {place : Place} (h : depth ≤ place.depth) {node : Node}
    {x : BlockScript.Run α} : Deep depth (perform place node x) := by
  intro world
  unfold perform
  cases x world.erase with
  | ok a after => exact ⟨[], rfl, fun _ hmem => absurd hmem List.not_mem_nil⟩
  | error failure after => exact deep_see h (world.keep after) _

theorem deep_findVariable {place : Place} (h : depth ≤ place.depth) {node : Node} {name : String} :
    Deep depth (findVariable place node name) :=
  deep_get fun _ => deep_bind quiet_ofScope.deep fun _ =>
    deep_bind (deep_report h) fun _ => deep_pure

theorem deep_declare {place : Place} (h : depth ≤ place.depth) {name : String} {slot : Slot} :
    Deep depth (declare place name slot) :=
  deep_bind quiet_define.deep fun _ => deep_bind (deep_changed h) fun _ => deep_pure

theorem deep_inside {place : Place} {block : Place → Run (Option Value × Chain)}
    (h : ∀ entry, Deep depth (block (place.enter entry))) : Deep depth (inside place block) :=
  deep_withEntry fun entry => deep_bind (h entry) fun _ => deep_pure

theorem deep_evaluating {place : Place} (hdepth : depth ≤ place.depth) {node : Node}
    {x : Run Value} (h : Deep depth x) : Deep depth (evaluating place node x) :=
  deep_bind h fun _ => deep_bind (deep_report hdepth) fun _ => deep_pure

/-! ### Expressions and statements -/

/-- With some fuel expressions report nothing above their own depth. -/
def EvaluatesDeep (fuel : Nat) : Prop :=
  ∀ (place : Place) (node : Node), Deep place.depth (evaluate fuel place node)

section

variable {fuel : Nat} {place : Place} {node : Node}

theorem deep_condition {condition : Node} {next : Bool → Run α} (hevaluate : EvaluatesDeep fuel)
    (hnext : ∀ holds, Deep place.depth (next holds)) :
    Deep place.depth (do
      let chosen ← evaluate fuel place condition
      next (← perform place node (BlockScript.Run.requireBoolean chosen))) :=
  deep_bind (hevaluate place condition) fun _ => deep_bind (deep_perform le_rfl) hnext

theorem deep_index {name : String} {slot : Slot} {offset : Node} {next : Nat → Nat → Run α}
    (hevaluate : EvaluatesDeep fuel)
    (hnext : ∀ handle index, Deep place.depth (next handle index)) :
    Deep place.depth (do
      let handle ← perform place node (BlockScript.Run.requireList name slot.erase)
      let position ← evaluate fuel place offset
      let index ← perform place node (BlockScript.Run.requireOffset handle position)
      next handle index) := by
  refine deep_bind (deep_perform le_rfl) fun handle => ?_
  refine deep_bind (hevaluate place offset) fun position => ?_
  exact deep_bind (deep_perform le_rfl) fun index => hnext handle index

theorem deep_binary {symbol : String} {left right : Node} {type : Option Ty}
    (hevaluate : EvaluatesDeep fuel) :
    Deep place.depth (evaluate (fuel + 1) place (.binary symbol left right type)) := by
  have hright : Deep place.depth (do
      let second ← evaluate fuel place right
      return Value.scalar (.boolean (← perform place (.binary symbol left right type)
        (BlockScript.Run.requireBoolean second)))) :=
    deep_condition hevaluate fun _ => deep_pure
  refine deep_evaluating le_rfl (deep_bind (hevaluate place left) fun first => ?_)
  refine deep_ite (deep_bind (deep_perform le_rfl) fun _ => deep_ite hright deep_pure) ?_
  refine deep_ite (deep_bind (deep_perform le_rfl) fun _ => deep_ite deep_pure hright) ?_
  exact deep_bind (hevaluate place right) fun _ => deep_perform le_rfl

theorem deep_assignment {receiver value : Node} (hevaluate : EvaluatesDeep fuel) :
    Deep place.depth (execute (fuel + 1) place (.assignment receiver value)) := by
  refine deep_bind (hevaluate place value) fun result => ?_
  cases receiver with
  | access name offset _ _ =>
    refine deep_bind (deep_findVariable le_rfl) fun slot => deep_ite ?_ ?_
    · refine deep_ite (deep_bind quiet_assign.deep fun locals => ?_) deep_throw
      exact deep_bind (deep_changed le_rfl) fun _ => deep_pure
    · refine deep_index hevaluate fun handle index => ?_
      refine deep_bind (deep_perform le_rfl) fun _ => ?_
      exact deep_bind (deep_report le_rfl) fun _ => deep_pure
  | _ => exact deep_throw

/-- Whether a case is chosen is found out at the depth of the switch. -/
theorem deep_matched {value : Node} {chosen : Value} {next : Bool → Run α}
    (hevaluate : EvaluatesDeep fuel) (hnext : ∀ matched, Deep place.depth (next matched)) :
    Deep place.depth (do
      let matched ← if value.isNull then pure true else do
        let found ← evaluate fuel place value
        let world ← get
        pure ((world.erase.datum found).same (world.erase.datum chosen))
      next matched) := by
  refine deep_ite (hnext true) (deep_bind (hevaluate place value) fun found => ?_)
  exact deep_get fun _ => hnext _

end

mutual

theorem deep_evaluate : ∀ (fuel : Nat) (place : Place) (node : Node),
    Deep place.depth (evaluate fuel place node)
  | 0, _, _ => deep_throw
  | fuel + 1, place, node => by
    cases node with
    | literal => exact deep_evaluating le_rfl deep_pure
    | group inner _ => exact deep_evaluating le_rfl (deep_evaluate fuel place inner)
    | binary => exact deep_binary (deep_evaluate fuel)
    | access name offset _ _ =>
      refine deep_evaluating le_rfl (deep_bind (deep_findVariable le_rfl) fun slot => ?_)
      refine deep_ite deep_pure (deep_index (deep_evaluate fuel) fun _ _ => ?_)
      exact deep_perform le_rfl
    | call name arguments _ _ =>
      refine deep_evaluating le_rfl (deep_bind (deep_evaluateAll fuel place arguments) ?_)
      refine fun values => deep_bind quiet_findFunction.deep fun routine => ?_
      refine deep_bind (deep_report le_rfl) fun _ => deep_bind quiet_note.deep fun _ => ?_
      exact (deep_invoke fuel place routine values).mono (Nat.le_succ _)
    | listLiteral values _ =>
      refine deep_evaluating le_rfl (deep_bind (deep_evaluateAll fuel place values) ?_)
      exact fun _ => deep_perform le_rfl
    | _ => exact deep_evaluating le_rfl deep_throw

theorem deep_evaluateAll : ∀ (fuel : Nat) (place : Place) (nodes : List Node),
    Deep place.depth (evaluateAll fuel place nodes)
  | 0, _, _ => deep_throw
  | _ + 1, _, [] => deep_pure
  | fuel + 1, place, node :: rest =>
    deep_bind (deep_evaluate fuel place node) fun _ =>
      deep_bind (deep_evaluateAll fuel place rest) fun _ => deep_pure

/-- What happens in a call is deeper than the call. -/
theorem deep_invoke : ∀ (fuel : Nat) (place : Place) (routine : Routine) (arguments : List Value),
    Deep (place.depth + 1) (invoke fuel place routine arguments)
  | 0, _, _, _ => deep_throw
  | _ + 1, _, .print, [] => deep_throw
  | _ + 1, _, .print, argument :: _ =>
    deep_bind (fun world => ⟨[], rfl, fun _ hmem => absurd hmem List.not_mem_nil⟩) fun _ =>
      deep_pure
  | fuel + 1, place, .defined name parameters body _ bindings, arguments => by
    refine deep_ite (deep_withEntry fun entry => ?_) deep_throw
    refine deep_bind quiet_bindParameters.deep fun locals => ?_
    refine deep_bind (deep_report (show place.depth + 1 ≤ _ from le_rfl)) fun _ => ?_
    refine deep_bind (deep_executeBlock fuel (place.call entry locals) body) fun outcome => ?_
    obtain ⟨_ | result, behind⟩ := outcome
    · exact deep_pure
    · exact deep_bind quiet_note.deep fun _ => deep_pure

theorem deep_execute : ∀ (fuel : Nat) (place : Place) (node : Node),
    Deep place.depth (execute fuel place node)
  | 0, _, _ => deep_throw
  | fuel + 1, place, node => by
    cases node with
    | discard expression =>
      exact deep_bind (deep_evaluate fuel place expression) fun _ => deep_pure
    | declaration name _ value binding =>
      have hdeclare : ∀ initial, Deep place.depth (do
          let entry := place.entries.headD 0
          let locals ← declare place name
            { value := initial, mutable := true, origin := binding, entry }
          note 2 fun world => "declare " ++ name ++ " = " ++ world.textOf initial
          return ((none : Option Value), locals)) := fun _ =>
        deep_bind (deep_declare le_rfl) fun _ => deep_bind quiet_note.deep fun _ => deep_pure
      exact deep_ite (hdeclare _) (deep_bind (deep_evaluate fuel place value) hdeclare)
    | assignment => exact deep_assignment (deep_evaluate fuel)
    | branch condition thenBody elseBody =>
      refine deep_condition (deep_evaluate fuel) fun holds => deep_bind quiet_note.deep fun _ => ?_
      exact deep_inside fun entry => deep_executeBlock fuel (place.enter entry) _
    | switch condition cases =>
      exact deep_bind (deep_evaluate fuel place condition) fun _ =>
        deep_executeCases fuel place _ cases
    | loop condition body => exact deep_executeLoop fuel place condition body
    | ret value => exact deep_bind (deep_evaluate fuel place value) fun _ => deep_pure
    | _ => exact deep_throw

theorem deep_executeBlock : ∀ (fuel : Nat) (place : Place) (nodes : List Node),
    Deep place.depth (executeBlock fuel place nodes)
  | 0, _, _ => deep_throw
  | _ + 1, _, [] => deep_pure
  | fuel + 1, place, statement :: rest => by
    refine deep_bind (deep_execute fuel place statement) fun outcome => ?_
    obtain ⟨_ | result, locals⟩ := outcome
    · exact deep_executeBlock fuel { place with locals } rest
    · exact deep_pure

theorem deep_executeCases : ∀ (fuel : Nat) (place : Place) (chosen : Value) (nodes : List Node),
    Deep place.depth (executeCases fuel place chosen nodes)
  | 0, _, _, _ => deep_throw
  | _ + 1, _, _, [] => deep_pure
  | fuel + 1, place, chosen, node :: rest => by
    have hrest := deep_executeCases fuel place chosen rest
    cases node with
    | case value body =>
      refine deep_matched (deep_evaluate fuel) fun matched => deep_ite ?_ hrest
      exact deep_inside fun entry => deep_executeBlock fuel (place.enter entry) body
    | declaration | assignment | ret | global =>
      exact deep_matched (deep_evaluate fuel) fun matched => deep_ite deep_throw hrest
    | _ => exact deep_throw

theorem deep_executeLoop : ∀ (fuel : Nat) (place : Place) (condition : Node) (body : List Node),
    Deep place.depth (executeLoop fuel place condition body)
  | 0, _, _, _ => deep_throw
  | fuel + 1, place, condition, body => by
    refine deep_condition (deep_evaluate fuel) fun holds => deep_ite ?_ deep_pure
    refine deep_bind (deep_inside fun entry =>
      deep_executeBlock fuel (place.enter entry) body) fun outcome => ?_
    obtain ⟨_ | result, locals⟩ := outcome
    · exact deep_executeLoop fuel { place with locals } condition body
    · exact deep_pure

end

end Watched

end BlockScript

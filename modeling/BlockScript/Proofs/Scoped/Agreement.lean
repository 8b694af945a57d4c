import BlockScript.Proofs.Scoped.Frame
/-!
# A run on scopes is a run

An evaluation or an execution in a scope of the store does what the one does that is handed the
frames of this scope: it ends with the same value or the same failure, leaves the same top frame,
lists and output behind, and the scope sees the frames that the other one passes on. For this it
matters that expressions leave the local frames alone (`Scoped.quiet_evaluate`): the chain that was
handed over before an expression is still the right one behind it.

## Main definitions

* `Scoped.Agrees` — a computation in a scope does what one with the frames of the scope does

## Main results

* `Scoped.agrees_evaluate`, `Scoped.agrees_execute` — expressions and statements
-/

namespace BlockScript

namespace Scoped

open BlockScript.Scoped.Run

variable {α β γ δ : Type} {place : Place} {locals : DynamicChain} {name : String}

/-- A result with the local frames that a scope sees afterwards, as far as they are looked at. -/
def viewResult (place : Place) (view : α → DynamicChain → β) :
    EStateM.Result Failure State α → EStateM.Result Failure World β
  | .ok a after => .ok (view a (after.locals place)) after.world
  | .error failure after => .error failure after.world

/-- A computation in a scope that sees certain local frames does what another one does. -/
def Agrees (place : Place) (locals : DynamicChain) (view : α → DynamicChain → β) (x : Run α)
    (y : BlockScript.Run β) : Prop :=
  ∀ σ, σ.Has place → σ.locals place = locals → viewResult place view (x σ) = y σ.world

/-- A computation in a scope has the result of another one, which leaves the frames alone. -/
abbrev AgreesInValue (place : Place) (locals : DynamicChain) (x : Run α)
    (y : BlockScript.Run α) : Prop :=
  Agrees place locals (fun a _ => a) x y

/-- A computation in a scope has the outcome of another one, which passes the frames on. -/
abbrev AgreesInOutcome (place : Place) (locals : DynamicChain) (x : Run α)
    (y : BlockScript.Run (α × DynamicChain)) : Prop :=
  Agrees place locals Prod.mk x y

/-! ### Computations in a row -/

section

variable {view : γ → DynamicChain → δ} {k : α → Run γ}

theorem agrees_pure {a : α} {view : α → DynamicChain → β} {b : β} (h : view a locals = b) :
    Agrees place locals view (pure a) (pure b) := by
  rintro σ - rfl
  rw [← h]
  rfl

theorem agrees_throw {view : α → DynamicChain → β} {failure : Failure} :
    Agrees place locals view (throw failure) (throw failure) :=
  fun _ _ _ => rfl

/-- What is left behind by the first computation is where the second one begins. -/
theorem agrees_bind {x : Run α} {y : BlockScript.Run β} {first : α → DynamicChain → β}
    {l : β → BlockScript.Run δ} (hx : Agrees place locals first x y) (hgrows : Grows place x)
    (hk : ∀ a behind, Agrees place behind view (k a) (l (first a behind))) :
    Agrees place locals view (x >>= k) (y >>= l) := by
  intro σ hplace hlocals
  have hfirst := hx σ hplace hlocals
  obtain ⟨names, hchanges⟩ := hgrows σ hplace
  cases h : x σ with
  | ok a after =>
    rw [h] at hfirst hchanges
    simp only [bind_apply, h, ← hfirst, viewResult]
    exact hk a _ after (hchanges.has hplace) rfl
  | error failure after =>
    rw [h] at hfirst
    simp only [bind_apply, h, ← hfirst, viewResult]

/-- Behind an expression the local frames are the ones in front of it. -/
theorem agrees_bind_value {x : Run α} {y : BlockScript.Run α} {l : α → BlockScript.Run δ}
    (hx : AgreesInValue place locals x y) (hquiet : Quiet x)
    (hk : ∀ a, Agrees place locals view (k a) (l a)) :
    Agrees place locals view (x >>= k) (y >>= l) := by
  intro σ hplace hlocals
  have hfirst := hx σ hplace hlocals
  have hchanges := hquiet σ
  cases h : x σ with
  | ok a after =>
    rw [h] at hfirst hchanges
    simp only [bind_apply, h, ← hfirst, viewResult]
    exact hk a after (hchanges.has hplace) ((hchanges.locals_eq hplace).trans hlocals)
  | error failure after =>
    rw [h] at hfirst
    simp only [bind_apply, h, ← hfirst, viewResult]

/-- A last step that only makes the result. -/
theorem agrees_map {x : Run α} {y : BlockScript.Run β} {first : α → DynamicChain → β} {f : α → γ}
    {g : β → δ} (hx : Agrees place locals first x y)
    (h : ∀ a behind, view (f a) behind = g (first a behind)) :
    Agrees place locals view (x >>= fun a => pure (f a)) (y >>= fun b => pure (g b)) := by
  intro σ hplace hlocals
  have hfirst := hx σ hplace hlocals
  cases hresult : x σ with
  | ok a after =>
    rw [hresult] at hfirst
    simp only [bind_apply, hresult, ← hfirst, viewResult, pure, EStateM.pure, h]
  | error failure after =>
    rw [hresult] at hfirst
    simp only [bind_apply, hresult, ← hfirst, viewResult]

theorem agrees_ite {p : Prop} [Decidable p] {view : α → DynamicChain → β} {x x' : Run α}
    {y y' : BlockScript.Run β} (h : Agrees place locals view x y)
    (h' : Agrees place locals view x' y') :
    Agrees place locals view (if p then x else x') (if p then y else y') := by
  by_cases hp : p
  · rwa [if_pos hp, if_pos hp]
  · rwa [if_neg hp, if_neg hp]

end

/-! ### Computations that do without local scopes -/

theorem agrees_lift (x : BlockScript.Run α) : AgreesInValue place locals (lift x) x := by
  intro σ _ _
  unfold lift
  cases x σ.world <;> rfl

theorem agrees_refuse {view : α → DynamicChain → β} {error : EvaluationError} :
    Agrees place locals view (lift (BlockScript.Run.refuse error))
      (BlockScript.Run.refuse error) :=
  fun _ _ _ => rfl

theorem agrees_findVariable : AgreesInValue place locals (findVariable place name)
    (BlockScript.Run.findVariable locals name) := by
  rintro σ hplace rfl
  exact agrees_lift _ σ hplace rfl

theorem agrees_findFunction {arity : Nat} :
    AgreesInValue place locals (findFunction place name arity)
      (BlockScript.Run.findFunction locals name arity) := by
  rintro σ hplace rfl
  exact agrees_lift _ σ hplace rfl

/-! ### Variables -/

theorem agrees_define {slot : Slot} :
    Agrees place locals (fun _ behind => behind) (define place name slot)
      (BlockScript.Run.define locals name slot) := by
  rintro σ hplace rfl
  rw [define_apply]
  cases place with
  | none =>
    simp only [State.locals, State.frame, BlockScript.Run.define, get_bind_apply]
    cases σ.world.top.defineVariable name slot <;> rfl
  | some id =>
    cases h : (σ.scopes.frame id).defineVariable name slot with
    | error e =>
      obtain ⟨outer, hchain, -⟩ := Store.exists_chain_eq_cons hplace {}
      simp only [State.locals, State.frame, h, hchain]
      simp only [BlockScript.Run.define, h]
      rfl
    | ok frame =>
      obtain ⟨outer, hchain, hafter⟩ := Store.exists_chain_eq_cons hplace frame
      simp only [State.locals, State.frame, State.setFrame, h, hchain, viewResult, hafter]
      simp only [BlockScript.Run.define, h]
      rfl

theorem agrees_assign {value : Value} :
    Agrees place locals (fun _ behind => behind) (assign place name value)
      (BlockScript.Run.assign locals name value) := by
  rintro σ hplace rfl
  cases place with
  | none => rfl
  | some id =>
    have hassign : assign (some id) name value σ =
        .ok () (σ.setFrame (σ.owner (some id) name)
          ((σ.frame (σ.owner (some id) name)).updateVariable name
            fun slot => { slot with value })) := rfl
    rw [hassign, BlockScript.Run.assign]
    cases h : σ.scopes.owner? id name with
    | none =>
      have hnone : Chain.findVariable? (σ.locals (some id)) name = none :=
        Store.owner?_eq_none_iff.mp h
      rw [hnone]
      simp only [State.owner, Option.bind_some, h]
      rfl
    | some q =>
      have hsome : (Chain.findVariable? (σ.locals (some id)) name).isSome = true := by
        rw [Option.isSome_iff_ne_none]
        intro hnone
        rw [Store.owner?_eq_none_iff.mpr hnone] at h
        cases h
      rw [if_pos hsome]
      simp only [State.owner, Option.bind_some, h, viewResult, State.setFrame, State.frame,
        State.locals]
      rw [Store.chain_updateVariable h]
      rfl

theorem agrees_bindParameters {parameters : List String} :
    ∀ {arguments : List Value} {locals : DynamicChain},
      Agrees place locals (fun _ behind => behind) (bindParameters place parameters arguments)
        (BlockScript.bindParameters parameters arguments locals) := by
  induction parameters with
  | nil =>
    intro arguments locals
    exact agrees_pure rfl
  | cons parameter parameters ih =>
    intro arguments locals
    cases arguments with
    | nil => exact agrees_pure rfl
    | cons argument arguments =>
      apply agrees_bind agrees_define (defines_define rfl).grows
      intro _ behind
      exact ih

/-! ### New scopes -/

section

variable {block : Place → Run α} {plain : BlockScript.Run (α × DynamicChain)}

/-- Leaving a new scope is dropping the innermost frame. -/
theorem agrees_inside (hgrows : ∀ inner, Grows inner (block inner))
    (h : ∀ inner, AgreesInOutcome inner ({} :: locals) (block inner) plain) :
    AgreesInOutcome place locals (inside place block)
      (plain >>= fun outcome => pure (outcome.1, outcome.2.tail)) := by
  rintro σ hplace rfl
  have hplain := h (some σ.next) (σ.opened place) State.has_opened_self
    (State.locals_opened_self hplace)
  obtain ⟨names, hchanges⟩ := hgrows (some σ.next) (σ.opened place) State.has_opened_self
  have hinside : inside place block σ = block (some σ.next) (σ.opened place) := rfl
  have hworld : (σ.opened place).world = σ.world := rfl
  rw [hworld] at hplain
  rw [hinside]
  cases hblock : block (some σ.next) (σ.opened place) with
  | ok a after =>
    rw [hblock] at hplain hchanges
    have hpaths : Changes (some σ.next) names (σ.opened place) after := hchanges
    -- the scope still stands where it was opened
    have hopened : (σ.opened place).path place = σ.path place :=
      State.path_congr hplace fun _ hid => State.parent?_opened hid
    have hpath : after.path (some σ.next) = some σ.next :: after.path place := by
      rw [hpaths.path_eq State.has_opened_self, hpaths.path_eq (State.has_opened hplace),
        State.path_opened_self hplace, hopened]
    simp only [bind_apply, ← hplain, viewResult, State.locals_eq_cons hpath]
    rfl
  | error failure after =>
    rw [hblock] at hplain
    simp only [bind_apply, ← hplain, viewResult]

theorem agrees_inside_bind {view : γ → DynamicChain → δ} {k : α → Run γ}
    {l : α → DynamicChain → BlockScript.Run δ} (hgrows : ∀ inner, Grows inner (block inner))
    (h : ∀ inner, AgreesInOutcome inner ({} :: locals) (block inner) plain)
    (hk : ∀ a behind, Agrees place behind view (k a) (l a behind)) :
    Agrees place locals view (inside place block >>= k)
      (plain >>= fun outcome => l outcome.1 outcome.2.tail) := by
  have hdefines : Defines place [] (inside place block) := defines_inside hgrows
  have hbind := agrees_bind (l := fun outcome => l outcome.1 outcome.2) (agrees_inside hgrows h)
    hdefines.grows hk
  simpa only [bind_assoc, pure_bind] using hbind

/-- A call hands over no frames and gets none back. -/
theorem agrees_inside_none (h : ∀ inner, AgreesInOutcome inner [{}] (block inner) plain) :
    AgreesInValue place locals (inside none block)
      (plain >>= fun outcome => pure outcome.1) := by
  rintro σ - -
  have hplain := h (some σ.next) (σ.opened none) State.has_opened_self
    (State.locals_opened_self State.has_none)
  have hinside : inside none block σ = block (some σ.next) (σ.opened none) := rfl
  have hworld : (σ.opened none).world = σ.world := rfl
  rw [hworld] at hplain
  rw [hinside]
  cases hblock : block (some σ.next) (σ.opened none) with
  | ok a after =>
    rw [hblock] at hplain
    simp only [bind_apply, ← hplain, viewResult]
    rfl
  | error failure after =>
    rw [hblock] at hplain
    simp only [bind_apply, ← hplain, viewResult]

end

/-! ### Expressions and statements -/

/-- Expressions do with some fuel what they do when they are handed the frames. -/
def EvaluatesAlike (fuel : Nat) : Prop :=
  ∀ (place : Place) (locals : DynamicChain) (node : Node),
    AgreesInValue place locals (evaluate fuel place node) (BlockScript.evaluate fuel locals node)

section

variable {fuel : Nat}

theorem agrees_condition {condition : Node} {view : α → DynamicChain → β} {next : Bool → Run α}
    {next' : Bool → BlockScript.Run β} (hevaluate : EvaluatesAlike fuel)
    (hnext : ∀ holds, Agrees place locals view (next holds) (next' holds)) :
    Agrees place locals view
      (do
        let chosen ← evaluate fuel place condition
        next (← lift (BlockScript.Run.requireBoolean chosen)))
      (do
        next' (← BlockScript.Run.requireBoolean
          (← BlockScript.evaluate fuel locals condition))) := by
  apply agrees_bind_value (hevaluate place locals condition) (quiet_evaluate fuel place condition)
  intro chosen
  exact agrees_bind_value (agrees_lift _) (quiet_requireBoolean chosen) hnext

theorem agrees_index {slot : Slot} {offset : Node} {view : α → DynamicChain → β}
    {next : Nat → Nat → Run α} {next' : Nat → Nat → BlockScript.Run β}
    (hevaluate : EvaluatesAlike fuel)
    (hnext : ∀ handle index, Agrees place locals view (next handle index) (next' handle index)) :
    Agrees place locals view
      (do
        let handle ← lift (BlockScript.Run.requireList name slot)
        let position ← evaluate fuel place offset
        let index ← lift (BlockScript.Run.requireOffset handle position)
        next handle index)
      (do
        let handle ← BlockScript.Run.requireList name slot
        let index ← BlockScript.Run.requireOffset handle
          (← BlockScript.evaluate fuel locals offset)
        next' handle index) := by
  apply agrees_bind_value (agrees_lift _) (quiet_requireList name slot)
  intro handle
  apply agrees_bind_value (hevaluate place locals offset) (quiet_evaluate fuel place offset)
  intro position
  exact agrees_bind_value (agrees_lift _) (quiet_requireOffset handle position) (hnext handle)

theorem agrees_binary {symbol : String} {left right : Node} {type : Option Ty}
    (hevaluate : EvaluatesAlike fuel) :
    AgreesInValue place locals (evaluate (fuel + 1) place (.binary symbol left right type))
      (BlockScript.evaluate (fuel + 1) locals (.binary symbol left right type)) := by
  have hright : AgreesInValue place locals
      (do
        let second ← evaluate fuel place right
        return Value.scalar (.boolean (← lift (BlockScript.Run.requireBoolean second))))
      (do return Value.scalar (.boolean (← BlockScript.Run.requireBoolean
        (← BlockScript.evaluate fuel locals right)))) :=
    agrees_condition hevaluate fun _ => agrees_pure rfl
  apply agrees_bind_value (hevaluate place locals left) (quiet_evaluate fuel place left)
  intro first
  apply agrees_ite
  · apply agrees_bind_value (agrees_lift _) (quiet_requireBoolean first)
    intro holds
    exact agrees_ite hright (agrees_pure rfl)
  apply agrees_ite
  · apply agrees_bind_value (agrees_lift _) (quiet_requireBoolean first)
    intro holds
    exact agrees_ite (agrees_pure rfl) hright
  -- any other operator
  apply agrees_bind_value (hevaluate place locals right) (quiet_evaluate fuel place right)
  intro second
  exact agrees_lift _

theorem agrees_declaration {typeName : Option String} {value : Node} {binding : Option Binding}
    (hevaluate : EvaluatesAlike fuel) :
    AgreesInOutcome place locals
      (execute (fuel + 1) place (.declaration name typeName value binding))
      (BlockScript.execute (fuel + 1) locals (.declaration name typeName value binding)) := by
  have hdefine : ∀ initial, AgreesInOutcome place locals
      (do
        define place name { value := initial, mutable := true }
        lift (BlockScript.Run.note 2 fun world =>
          "declare " ++ name ++ " = " ++ world.textOf initial)
        return (none : Option Value))
      (do
        let locals ← BlockScript.Run.define locals name { value := initial, mutable := true }
        BlockScript.Run.note 2 fun world => "declare " ++ name ++ " = " ++ world.textOf initial
        return (none, locals)) := by
    intro initial
    apply agrees_bind agrees_define (defines_define rfl).grows
    intro _ behind
    apply agrees_bind_value (agrees_lift _) (quiet_note _ _)
    intro _
    exact agrees_pure rfl
  exact agrees_ite (hdefine _) (agrees_bind_value (hevaluate place locals value)
    (quiet_evaluate fuel place value) hdefine)

theorem agrees_assignment {offset value : Node} {type : Option Ty} {binding : Option Binding}
    (hevaluate : EvaluatesAlike fuel) :
    AgreesInOutcome place locals
      (execute (fuel + 1) place (.assignment (.access name offset type binding) value))
      (BlockScript.execute (fuel + 1) locals
        (.assignment (.access name offset type binding) value)) := by
  apply agrees_bind_value (hevaluate place locals value) (quiet_evaluate fuel place value)
  intro result
  apply agrees_bind_value agrees_findVariable (quiet_findVariable place name)
  intro slot
  apply agrees_ite
  · exact agrees_ite (agrees_map agrees_assign fun _ _ => rfl) agrees_refuse
  · apply agrees_index hevaluate
    intro handle index
    apply agrees_bind_value (agrees_lift _) (quiet_writeItem handle index result)
    intro _
    exact agrees_pure rfl

/-- Whether a case is chosen is found out in the same way. -/
theorem agrees_matched {value : Node} {chosen : Value} {view : α → DynamicChain → β}
    {next : Bool → Run α} {next' : Bool → BlockScript.Run β} (hevaluate : EvaluatesAlike fuel)
    (hnext : ∀ matched, Agrees place locals view (next matched) (next' matched)) :
    Agrees place locals view
      (do
        let matched ← if value.isNull then pure true else do
          let found ← evaluate fuel place value
          let σ ← get
          pure ((σ.world.datum found).same (σ.world.datum chosen))
        next matched)
      (do
        let matched ← if value.isNull then pure true else do
          let found ← BlockScript.evaluate fuel locals value
          let world ← get
          pure ((world.datum found).same (world.datum chosen))
        next' matched) := by
  apply agrees_ite
  · exact hnext true
  · apply agrees_bind_value (hevaluate place locals value) (quiet_evaluate fuel place value)
    intro found σ hplace hlocals
    exact hnext _ σ hplace hlocals

/-- A function that is called is executed in a new scope directly inside the top scope. -/
theorem agrees_called {parameters : List String} {body : List Node} {arguments : List Value}
    (hblock : ∀ inner behind, AgreesInOutcome inner behind (executeBlock fuel inner body)
      (BlockScript.executeBlock fuel behind body)) :
    AgreesInValue place locals (invoke (fuel + 1) (.defined name parameters body) arguments)
      (BlockScript.invoke (fuel + 1) (.defined name parameters body) arguments) := by
  apply agrees_ite _ agrees_refuse
  have hgrows : ∀ inner, Grows inner (do
      bindParameters inner parameters arguments
      executeBlock fuel inner body) := fun inner =>
    grows_bind grows_bindParameters fun _ => grows_executeBlock fuel inner body
  have hbody : ∀ inner, AgreesInOutcome inner [{}]
      (do
        bindParameters inner parameters arguments
        executeBlock fuel inner body)
      (do
        let locals ← BlockScript.bindParameters parameters arguments [{}]
        BlockScript.executeBlock fuel locals body) := fun inner =>
    agrees_bind agrees_bindParameters grows_bindParameters fun _ behind =>
      hblock inner behind
  have hresult : ∀ outcome, AgreesInValue place locals
      (match outcome with
      | some result => do
        lift (BlockScript.Run.note 3 fun world => name ++ " returned " ++ world.textOf result)
        return result
      | none => return .nil)
      (match outcome with
      | some result => do
        BlockScript.Run.note 3 fun world => name ++ " returned " ++ world.textOf result
        return result
      | none => return .nil) := by
    rintro (_ | result)
    · exact agrees_pure rfl
    · exact agrees_map (agrees_lift _) fun _ _ => rfl
  have hcall := agrees_bind_value (agrees_inside_none hbody) (quiet_inside hgrows) hresult
  simp only [bind_assoc, pure_bind] at hcall
  exact hcall

end

mutual

theorem agrees_evaluate : ∀ (fuel : Nat) (place : Place) (locals : DynamicChain) (node : Node),
    AgreesInValue place locals (evaluate fuel place node) (BlockScript.evaluate fuel locals node)
  | 0, _, _, _ => agrees_throw
  | fuel + 1, place, locals, node => by
    cases node with
    | literal value _ => exact agrees_pure rfl
    | group inner _ => exact agrees_evaluate fuel place locals inner
    | binary symbol left right type => exact agrees_binary (agrees_evaluate fuel)
    | access name offset _ _ =>
      apply agrees_bind_value agrees_findVariable (quiet_findVariable place name)
      intro slot
      apply agrees_ite (agrees_pure rfl)
      apply agrees_index (agrees_evaluate fuel)
      intro handle index
      exact agrees_lift _
    | call name arguments _ _ =>
      apply agrees_bind_value (agrees_evaluateAll fuel place locals arguments)
        (quiet_evaluateAll fuel place arguments)
      intro values
      apply agrees_bind_value agrees_findFunction (quiet_findFunction place name values.length)
      intro routine
      apply agrees_bind_value (agrees_lift _) (quiet_note _ _)
      intro _
      exact agrees_invoke fuel place locals routine values
    | listLiteral values _ =>
      apply agrees_bind_value (agrees_evaluateAll fuel place locals values)
        (quiet_evaluateAll fuel place values)
      intro items
      exact agrees_lift _
    | _ => exact agrees_throw

theorem agrees_evaluateAll : ∀ (fuel : Nat) (place : Place) (locals : DynamicChain)
    (nodes : List Node), AgreesInValue place locals (evaluateAll fuel place nodes)
      (BlockScript.evaluateAll fuel locals nodes)
  | 0, _, _, _ => agrees_throw
  | _ + 1, _, _, [] => agrees_pure rfl
  | fuel + 1, place, locals, node :: rest => by
    apply agrees_bind_value (agrees_evaluate fuel place locals node)
      (quiet_evaluate fuel place node)
    intro first
    exact agrees_map (agrees_evaluateAll fuel place locals rest) fun _ _ => rfl

theorem agrees_invoke : ∀ (fuel : Nat) (place : Place) (locals : DynamicChain)
    (routine : Routine) (arguments : List Value),
    AgreesInValue place locals (invoke fuel routine arguments)
      (BlockScript.invoke fuel routine arguments)
  | 0, _, _, _, _ => agrees_throw
  | _ + 1, _, _, .print, [] => agrees_throw
  | _ + 1, _, _, .print, _ :: _ => agrees_map (agrees_lift _) fun _ _ => rfl
  | fuel + 1, _, _, .defined _ _ body, _ =>
    agrees_called fun inner behind => agrees_executeBlock fuel inner behind body

theorem agrees_execute : ∀ (fuel : Nat) (place : Place) (locals : DynamicChain) (node : Node),
    AgreesInOutcome place locals (execute fuel place node) (BlockScript.execute fuel locals node)
  | 0, _, _, _ => agrees_throw
  | fuel + 1, place, locals, node => by
    cases node with
    | discard expression =>
      apply agrees_bind_value (agrees_evaluate fuel place locals expression)
        (quiet_evaluate fuel place expression)
      intro _
      exact agrees_pure rfl
    | declaration name _ value _ => exact agrees_declaration (agrees_evaluate fuel)
    | assignment receiver value =>
      cases receiver with
      | access name offset _ _ => exact agrees_assignment (agrees_evaluate fuel)
      | _ =>
        apply agrees_bind_value (agrees_evaluate fuel place locals value)
          (quiet_evaluate fuel place value)
        intro result
        exact agrees_refuse
    | branch condition thenBody elseBody =>
      apply agrees_condition (agrees_evaluate fuel)
      intro holds
      apply agrees_bind_value (agrees_lift _) (quiet_note _ _)
      intro _
      apply agrees_inside
      · intro inner
        exact grows_executeBlock fuel inner _
      · intro inner
        exact agrees_executeBlock fuel inner _ _
    | switch condition cases =>
      apply agrees_bind_value (agrees_evaluate fuel place locals condition)
        (quiet_evaluate fuel place condition)
      intro chosen
      exact agrees_executeCases fuel place locals chosen cases
    | loop condition body => exact agrees_executeLoop fuel place locals condition body
    | ret value =>
      apply agrees_bind_value (agrees_evaluate fuel place locals value)
        (quiet_evaluate fuel place value)
      intro result
      exact agrees_pure rfl
    | _ => exact agrees_throw

theorem agrees_executeBlock : ∀ (fuel : Nat) (place : Place) (locals : DynamicChain)
    (nodes : List Node), AgreesInOutcome place locals (executeBlock fuel place nodes)
      (BlockScript.executeBlock fuel locals nodes)
  | 0, _, _, _ => agrees_throw
  | _ + 1, _, _, [] => agrees_pure rfl
  | fuel + 1, place, locals, statement :: rest => by
    apply agrees_bind (agrees_execute fuel place locals statement)
      (defines_execute fuel place statement).grows
    rintro (_ | result) behind
    · exact agrees_executeBlock fuel place behind rest
    · exact agrees_pure rfl

theorem agrees_executeCases : ∀ (fuel : Nat) (place : Place) (locals : DynamicChain)
    (chosen : Value) (nodes : List Node),
    AgreesInOutcome place locals (executeCases fuel place chosen nodes)
      (BlockScript.executeCases fuel locals chosen nodes)
  | 0, _, _, _, _ => agrees_throw
  | _ + 1, _, _, _, [] => agrees_pure rfl
  | fuel + 1, place, locals, chosen, node :: rest => by
    cases node with
    | case value body =>
      apply agrees_matched (agrees_evaluate fuel)
      intro matched
      apply agrees_ite _ (agrees_executeCases fuel place locals chosen rest)
      apply agrees_inside
      · intro inner
        exact grows_executeBlock fuel inner body
      · intro inner
        exact agrees_executeBlock fuel inner _ body
    | declaration | assignment | ret | global =>
      apply agrees_matched (agrees_evaluate fuel)
      intro matched
      exact agrees_ite agrees_throw (agrees_executeCases fuel place locals chosen rest)
    | _ => exact agrees_throw

theorem agrees_executeLoop : ∀ (fuel : Nat) (place : Place) (locals : DynamicChain)
    (condition : Node) (body : List Node),
    AgreesInOutcome place locals (executeLoop fuel place condition body)
      (BlockScript.executeLoop fuel locals condition body)
  | 0, _, _, _, _ => agrees_throw
  | fuel + 1, place, locals, condition, body => by
    apply agrees_condition (agrees_evaluate fuel)
    intro holds
    apply agrees_ite _ (agrees_pure rfl)
    -- the loop that passes frames on drops the innermost one in each of its two ways on
    apply agrees_inside_bind (l := fun (outcome : Option Value) behind =>
      match outcome with
      | some result => pure (some result, behind)
      | none => BlockScript.executeLoop fuel behind condition body)
    · intro inner
      exact grows_executeBlock fuel inner body
    · intro inner
      exact agrees_executeBlock fuel inner _ body
    · rintro (_ | result) behind
      · exact agrees_executeLoop fuel place behind condition body
      · exact agrees_pure rfl

end

end Scoped

end BlockScript

import BlockScript.Proofs.Surface.World
import BlockScript.Proofs.Surface.Writes
/-!
# What runs are made of

Whatever a program is, its run is put together of steps that have nothing to do with the transcript,
of notes, and of prints; and what is noted and printed does not depend on the transcript either. So
whatever holds of such steps, and of computations in a row if it holds of their parts, holds of all
runs.

## Main definitions

* `World.Blind` — views of states that do not depend on the transcript
* `Run.Silent` — computations that neither see nor touch the transcript
* `Run.Composed` — computations that are made of silent steps, notes and prints

## Main results

* `Run.composed_evaluate`, `Run.composed_execute`, `Run.composed_runProgram` — programs and their
  parts
* `Run.Composed.writing` — what is made of such steps does nothing but write
-/

namespace BlockScript

namespace World

variable {α β : Type}

/-- A view of states does not depend on the transcript. -/
def Blind (view : World → α) : Prop :=
  ∀ world transcript, view { world with transcript } = view world

theorem blind_datum : Blind World.datum :=
  fun _ _ => datum_eq_of_heap_eq rfl

theorem blind_textOf : Blind World.textOf := by
  intro world transcript
  funext value
  rw [textOf, textOf, blind_datum world transcript]

theorem blind_textsOf : Blind World.textsOf := by
  intro world transcript
  funext values
  rw [textsOf, textsOf, blind_datum world transcript]

mutual

theorem store_withTranscript : ∀ (datum : Datum) (world : World) (transcript : Transcript),
    { world with transcript }.store datum =
      ((world.store datum).1, { (world.store datum).2 with transcript })
  | .scalar _, _, _ => rfl
  | .list items, world, transcript => by
    rw [store, store, storeAll_withTranscript items world transcript]

theorem storeAll_withTranscript : ∀ (data : List Datum) (world : World) (transcript : Transcript),
    { world with transcript }.storeAll data =
      ((world.storeAll data).1, { (world.storeAll data).2 with transcript })
  | [], _, _ => rfl
  | item :: rest, world, transcript => by
    rw [storeAll, storeAll, store_withTranscript item world transcript]
    dsimp only
    rw [storeAll_withTranscript rest _ transcript]

end

end World

namespace Run

open World (Blind blind_datum blind_textOf blind_textsOf)

variable {α β : Type} {locals : DynamicChain} {fuel : Nat}

/-! ### Silent computations -/

/-- A result that leaves another transcript behind. -/
def withTranscript (transcript : Transcript) :
    EStateM.Result Failure World α → EStateM.Result Failure World α
  | .ok a world => .ok a { world with transcript }
  | .error failure world => .error failure { world with transcript }

/-- A computation neither sees the transcript nor touches it. -/
def Silent (x : Run α) : Prop :=
  ∀ world transcript, x { world with transcript } = withTranscript transcript (x world)

theorem silent_pure (a : α) : Silent (pure a) :=
  fun _ _ => rfl

theorem silent_throw (failure : Failure) : Silent (throw failure : Run α) :=
  fun _ _ => rfl

theorem silent_bind {x : Run α} {k : α → Run β} (hx : Silent x) (hk : ∀ a, Silent (k a)) :
    Silent (x >>= k) := by
  intro world transcript
  rw [Scoped.bind_apply, Scoped.bind_apply, hx world transcript]
  cases x world with
  | ok a after => exact hk a after transcript
  | error failure after => rfl

theorem silent_ite {p : Prop} [Decidable p] {x y : Run α} (hx : Silent x) (hy : Silent y) :
    Silent (if p then x else y) := by
  split
  · exact hx
  · exact hy

theorem silent_get {k : World → Run β} (hblind : Blind k) (h : ∀ world, Silent (k world)) :
    Silent (get >>= k) := by
  intro world transcript
  rw [Scoped.get_bind_apply, Scoped.get_bind_apply, hblind world transcript]
  exact h world world transcript

theorem silent_ofScope (found : Except ScopeError α) : Silent (ofScope found) := by
  cases found with
  | ok a => exact silent_pure a
  | error e => exact silent_throw _

theorem silent_findVariable (name : String) : Silent (findVariable locals name) :=
  silent_get (fun _ _ => rfl) fun _ => silent_ofScope _

theorem silent_findFunction (name : String) (arity : Nat) :
    Silent (findFunction locals name arity) :=
  silent_get (fun _ _ => rfl) fun _ => silent_ofScope _

theorem silent_requireBoolean (value : Value) : Silent (requireBoolean value) := by
  unfold requireBoolean
  split
  · exact silent_pure _
  · exact silent_throw _

theorem silent_requireList (name : String) (slot : Slot) : Silent (requireList name slot) := by
  unfold requireList
  split
  · exact silent_pure _
  · exact silent_throw _

theorem silent_requireOffset (handle : Nat) (value : Value) :
    Silent (requireOffset handle value) := by
  unfold requireOffset
  split
  · exact silent_get (fun _ _ => rfl) fun _ => silent_ite (silent_pure _) (silent_throw _)
  · exact silent_throw _

theorem silent_applyToValues (symbol : String) (left right : Value) :
    Silent (applyToValues symbol left right) := by
  apply silent_get
  · intro world transcript
    simp only [blind_datum world transcript]
  · intro world
    -- a refusal, a result that is too great, or a result
    rcases applySymbol symbol (world.datum left) (world.datum right) with ⟨_ | _⟩ | _
    · exact silent_throw _
    · exact silent_throw _
    · exact silent_pure _

theorem silent_readItem (handle index : Nat) : Silent (readItem handle index) :=
  silent_get (fun _ _ => rfl) fun _ => silent_pure _

theorem silent_writeItem (handle index : Nat) (value : Value) :
    Silent (writeItem handle index value) :=
  fun _ _ => rfl

theorem silent_allocate (items : List Value) : Silent (allocate items) :=
  fun _ _ => rfl

theorem silent_define (name : String) (slot : Slot) : Silent (define locals name slot) := by
  cases locals with
  | cons inner outer => exact silent_bind (silent_ofScope _) fun _ => silent_pure _
  | nil =>
    intro world transcript
    rw [define, Scoped.get_bind_apply, Scoped.get_bind_apply]
    cases world.top.defineVariable name slot <;> rfl

theorem silent_assign (name : String) (value : Value) : Silent (assign locals name value) :=
  silent_ite (silent_pure _) (silent_bind (fun _ _ => rfl) fun _ => silent_pure _)

/-! ### Composed computations -/

/-- A computation is made of silent steps that write, of notes and of prints. -/
inductive Composed : {α : Type} → Run α → Prop
  | step {α : Type} {x : Run α} (hsilent : Silent x) (hwriting : Writing x) : Composed x
  | note (level : Int) {text : World → String} (hblind : Blind text) : Composed (note level text)
  | print (argument : Value) : Composed (modify fun world =>
      { world with transcript := world.transcript.print (world.textOf argument) })
  | bind {α β : Type} {x : Run α} {k : α → Run β} (hx : Composed x) (hk : ∀ a, Composed (k a)) :
    Composed (x >>= k)

/-- What is made of such steps does nothing but write. -/
theorem Composed.writing {x : Run α} (h : Composed x) : Writing x := by
  induction h with
  | step _ hwriting => exact hwriting
  | note level _ => exact writing_note level _
  | print argument => exact writing_print argument
  | bind _ _ ihx ihk => exact writing_bind ihx ihk

theorem composed_pure (a : α) : Composed (pure a) :=
  .step (silent_pure a) (writing_pure a)

theorem composed_throw (failure : Failure) : Composed (throw failure : Run α) :=
  .step (silent_throw failure) (writing_throw failure)

theorem composed_ite {p : Prop} [Decidable p] {x y : Run α} (hx : Composed x)
    (hy : Composed y) : Composed (if p then x else y) := by
  split
  · exact hx
  · exact hy

/-- What follows depends on a view of the state. -/
theorem composed_view {view : World → α} (hblind : Blind view) {k : α → Run β}
    (hk : ∀ a, Composed (k a)) : Composed (get >>= fun world => k (view world)) := by
  have hview : Composed (do return view (← get)) := by
    refine .step (silent_get ?_ fun _ => silent_pure _) (writing_get fun _ => writing_pure _)
    exact fun world transcript => congrArg pure (hblind world transcript)
  exact hview.bind hk

theorem composed_findVariable (name : String) : Composed (findVariable locals name) :=
  .step (silent_findVariable name) (writing_findVariable name)

theorem composed_findFunction (name : String) (arity : Nat) :
    Composed (findFunction locals name arity) :=
  .step (silent_findFunction name arity) (writing_findFunction name arity)

theorem composed_requireBoolean (value : Value) : Composed (requireBoolean value) :=
  .step (silent_requireBoolean value) (writing_requireBoolean value)

theorem composed_requireList (name : String) (slot : Slot) : Composed (requireList name slot) :=
  .step (silent_requireList name slot) (writing_requireList name slot)

theorem composed_requireOffset (handle : Nat) (value : Value) :
    Composed (requireOffset handle value) :=
  .step (silent_requireOffset handle value) (writing_requireOffset handle value)

theorem composed_define (name : String) (slot : Slot) : Composed (define locals name slot) :=
  .step (silent_define name slot) (writing_define name slot)

/-- The lists of several data are made without a word. -/
theorem composed_storeAll (data : List Datum) : Composed (do
    let (values, world) := (← get).storeAll data
    set world
    return values) := by
  refine .step ?_ (World.writes_storeAll data)
  intro world transcript
  simp only [Scoped.get_bind_apply, World.storeAll_withTranscript data world transcript]
  rfl

theorem composed_bindParameters (parameters : List String) :
    ∀ (arguments : List Value) (locals : DynamicChain),
      Composed (bindParameters parameters arguments locals) := by
  induction parameters with
  | nil => exact fun _ _ => composed_pure _
  | cons parameter parameters ih =>
    intro arguments locals
    cases arguments with
    | nil => exact composed_pure _
    | cons argument arguments =>
      exact (composed_define parameter _).bind fun locals => ih arguments locals

/-! ### Expressions and statements -/

section

/-- The values of expressions are found by composed computations, with some fuel. -/
def EvaluatesByParts (fuel : Nat) : Prop :=
  ∀ (locals : DynamicChain) (node : Node), Composed (evaluate fuel locals node)

theorem composed_condition {condition : Node} {next : Bool → Run α}
    (hevaluate : EvaluatesByParts fuel) (hnext : ∀ holds, Composed (next holds)) :
    Composed (do
      let holds ← requireBoolean (← evaluate fuel locals condition)
      next holds) := by
  apply (hevaluate locals condition).bind
  intro chosen
  exact (composed_requireBoolean chosen).bind hnext

theorem composed_index {name : String} {slot : Slot} {offset : Node} {next : Nat → Nat → Run α}
    (hevaluate : EvaluatesByParts fuel) (hnext : ∀ handle index, Composed (next handle index)) :
    Composed (do
      let handle ← requireList name slot
      let index ← requireOffset handle (← evaluate fuel locals offset)
      next handle index) := by
  apply (composed_requireList name slot).bind
  intro handle
  apply (hevaluate locals offset).bind
  intro position
  exact (composed_requireOffset handle position).bind (hnext handle)

theorem composed_binary {symbol : String} {left right : Node} {type : Option Ty}
    (hevaluate : EvaluatesByParts fuel) :
    Composed (evaluate (fuel + 1) locals (.binary symbol left right type)) := by
  have hright : Composed (do
      return Value.scalar (.boolean (← requireBoolean (← evaluate fuel locals right)))) :=
    composed_condition hevaluate fun _ => composed_pure _
  apply (hevaluate locals left).bind
  intro first
  apply composed_ite
  · exact (composed_requireBoolean first).bind fun _ => composed_ite hright (composed_pure _)
  apply composed_ite
  · exact (composed_requireBoolean first).bind fun _ => composed_ite (composed_pure _) hright
  -- any other operator
  apply (hevaluate locals right).bind
  intro second
  exact .step (silent_applyToValues symbol first second) (writing_applyToValues symbol first second)

theorem composed_assignment {receiver value : Node} (hevaluate : EvaluatesByParts fuel) :
    Composed (execute (fuel + 1) locals (.assignment receiver value)) := by
  apply (hevaluate locals value).bind
  intro result
  cases receiver with
  | access name offset type binding =>
    apply (composed_findVariable name).bind
    intro slot
    apply composed_ite
    · apply composed_ite _ (composed_throw _)
      have hassign : Composed (assign locals name result) :=
        .step (silent_assign name result) (writing_assign name result)
      exact hassign.bind fun _ => composed_pure _
    · apply composed_index hevaluate
      intro handle index
      have hwrite : Composed (writeItem handle index result) :=
        .step (silent_writeItem handle index result) (writing_writeItem handle index result)
      exact hwrite.bind fun _ => composed_pure _
  | _ => exact composed_throw _

/-- An initial value, which may be absent. -/
theorem composed_initial {value : Node} {next : Value → Run α} (hevaluate : EvaluatesByParts fuel)
    (hnext : ∀ initial, Composed (next initial)) :
    Composed (do
      let initial ← if value.isNull then pure .nil else evaluate fuel locals value
      next initial) :=
  composed_ite (hnext .nil) ((hevaluate locals value).bind hnext)

/-- Whether a case is chosen. -/
theorem composed_matched {value : Node} {chosen : Value} {next : Bool → Run α}
    (hevaluate : EvaluatesByParts fuel) (hnext : ∀ matched, Composed (next matched)) :
    Composed (do
      let matched ← if value.isNull then pure true else do
        let found ← evaluate fuel locals value
        let world ← get
        pure ((world.datum found).same (world.datum chosen))
      next matched) := by
  apply composed_ite (hnext true)
  apply (hevaluate locals value).bind
  intro found
  refine composed_view ?_ hnext
  exact fun world transcript => by rw [blind_datum world transcript]

end

mutual

theorem composed_evaluate : ∀ (fuel : Nat) (locals : DynamicChain) (node : Node),
    Composed (evaluate fuel locals node)
  | 0, _, _ => composed_throw _
  | fuel + 1, locals, node => by
    cases node with
    | literal value _ => exact composed_pure _
    | group inner _ => exact composed_evaluate fuel locals inner
    | binary symbol left right type => exact composed_binary (composed_evaluate fuel)
    | access name offset _ _ =>
      apply (composed_findVariable name).bind
      intro slot
      apply composed_ite (composed_pure _)
      apply composed_index (composed_evaluate fuel)
      exact fun handle index => .step (silent_readItem handle index) (writing_readItem handle index)
    | call name arguments _ _ =>
      apply (composed_evaluateAll fuel locals arguments).bind
      intro values
      apply (composed_findFunction name values.length).bind
      intro routine
      refine (Composed.note 3 ?_).bind fun _ => composed_invoke fuel routine values
      exact fun world transcript => by rw [blind_textsOf world transcript]
    | listLiteral values _ =>
      apply (composed_evaluateAll fuel locals values).bind
      exact fun items => .step (silent_allocate items) (writing_allocate items)
    | _ => exact composed_throw _

theorem composed_evaluateAll : ∀ (fuel : Nat) (locals : DynamicChain) (nodes : List Node),
    Composed (evaluateAll fuel locals nodes)
  | 0, _, _ => composed_throw _
  | _ + 1, _, [] => composed_pure _
  | fuel + 1, locals, node :: rest => by
    apply (composed_evaluate fuel locals node).bind
    intro first
    exact (composed_evaluateAll fuel locals rest).bind fun _ => composed_pure _

theorem composed_invoke : ∀ (fuel : Nat) (routine : Routine) (arguments : List Value),
    Composed (invoke fuel routine arguments)
  | 0, _, _ => composed_throw _
  | _ + 1, .print, [] => composed_throw _
  | _ + 1, .print, argument :: _ => (Composed.print argument).bind fun _ => composed_pure _
  | fuel + 1, .defined name parameters body, arguments => by
    apply composed_ite _ (composed_throw _)
    apply (composed_bindParameters parameters arguments [{}]).bind
    intro locals
    apply (composed_executeBlock fuel locals body).bind
    rintro ⟨_ | result, behind⟩
    · exact composed_pure _
    · refine (Composed.note 3 ?_).bind fun _ => composed_pure _
      exact fun world transcript => by rw [blind_textOf world transcript]

theorem composed_execute : ∀ (fuel : Nat) (locals : DynamicChain) (node : Node),
    Composed (execute fuel locals node)
  | 0, _, _ => composed_throw _
  | fuel + 1, locals, node => by
    cases node with
    | discard expression =>
      exact (composed_evaluate fuel locals expression).bind fun _ => composed_pure _
    | declaration name _ value _ =>
      apply composed_initial (composed_evaluate fuel)
      intro initial
      apply (composed_define name _).bind
      intro behind
      refine (Composed.note 2 ?_).bind fun _ => composed_pure _
      exact fun world transcript => by rw [blind_textOf world transcript]
    | assignment receiver value => exact composed_assignment (composed_evaluate fuel)
    | branch condition thenBody elseBody =>
      apply composed_condition (composed_evaluate fuel)
      intro holds
      apply (Composed.note 3 fun _ _ => rfl).bind
      intro _
      exact (composed_executeBlock fuel ({} :: locals) _).bind fun _ => composed_pure _
    | switch condition cases =>
      apply (composed_evaluate fuel locals condition).bind
      intro chosen
      exact composed_executeCases fuel locals chosen cases
    | loop condition body => exact composed_executeLoop fuel locals condition body
    | ret value =>
      exact (composed_evaluate fuel locals value).bind fun _ => composed_pure _
    | _ => exact composed_throw _

theorem composed_executeBlock : ∀ (fuel : Nat) (locals : DynamicChain) (nodes : List Node),
    Composed (executeBlock fuel locals nodes)
  | 0, _, _ => composed_throw _
  | _ + 1, _, [] => composed_pure _
  | fuel + 1, locals, statement :: rest => by
    apply (composed_execute fuel locals statement).bind
    rintro ⟨_ | result, behind⟩
    · exact composed_executeBlock fuel behind rest
    · exact composed_pure _

theorem composed_executeCases : ∀ (fuel : Nat) (locals : DynamicChain) (chosen : Value)
    (nodes : List Node), Composed (executeCases fuel locals chosen nodes)
  | 0, _, _, _ => composed_throw _
  | _ + 1, _, _, [] => composed_pure _
  | fuel + 1, locals, chosen, node :: rest => by
    cases node with
    | case value body =>
      apply composed_matched (composed_evaluate fuel)
      intro matched
      apply composed_ite _ (composed_executeCases fuel locals chosen rest)
      exact (composed_executeBlock fuel ({} :: locals) body).bind fun _ => composed_pure _
    | declaration | assignment | ret | global =>
      apply composed_matched (composed_evaluate fuel)
      intro matched
      exact composed_ite (composed_throw _) (composed_executeCases fuel locals chosen rest)
    | _ => exact composed_throw _

theorem composed_executeLoop : ∀ (fuel : Nat) (locals : DynamicChain) (condition : Node)
    (body : List Node), Composed (executeLoop fuel locals condition body)
  | 0, _, _, _ => composed_throw _
  | fuel + 1, locals, condition, body => by
    apply composed_condition (composed_evaluate fuel)
    intro holds
    apply composed_ite _ (composed_pure _)
    apply (composed_executeBlock fuel ({} :: locals) body).bind
    rintro ⟨_ | result, inside⟩
    · exact composed_executeLoop fuel inside.tail condition body
    · exact composed_pure _

end

theorem composed_executeGlobal (fuel : Nat) (node : Node) :
    Composed (executeGlobal fuel node) := by
  cases node with
  | global name mutable typeName value isList binding =>
    apply composed_initial (composed_evaluate fuel)
    intro initial
    refine (composed_define name _).bind fun _ => .note 2 ?_
    exact fun world transcript => by rw [blind_textOf world transcript]
  | declaration | assignment | ret | case =>
    exact composed_initial (composed_evaluate fuel) fun _ => composed_throw _
  | _ => exact composed_throw _

theorem composed_forM {f : Node → Run Unit} (hf : ∀ node, Composed (f node))
    (nodes : List Node) : Composed (nodes.forM f) := by
  induction nodes with
  | nil => exact composed_pure ()
  | cons node rest ih => exact (hf node).bind fun _ => ih

theorem composed_defineFunction (node : Node) : Composed (defineFunction node) := by
  cases node with
  | function name parameters parameterTypes resultType body signature =>
    let define : Run Unit := do
      let world ← get
      let top ← ofScope (world.top.defineFunction name parameters.length
        (.defined name parameters body))
      set { world with top }
    have hdefine : Composed define := by
      apply Composed.step
      · intro world transcript
        simp only [define, Scoped.get_bind_apply]
        cases world.top.defineFunction name parameters.length
          (.defined name parameters body) <;> rfl
      · intro world
        simp only [define, Scoped.get_bind_apply]
        cases h : world.top.defineFunction name parameters.length
          (.defined name parameters body) with
        | error e => exact .refl
        | ok top => exact .single (.function h)
    have hparts : defineFunction (.function name parameters parameterTypes resultType body
        signature) = define >>= fun _ => note 2 fun _ =>
          "define function " ++ name ++ "/" ++ toString parameters.length := by
      simp only [defineFunction, define, bind_assoc]
    rw [hparts]
    exact hdefine.bind fun _ => .note 2 fun _ _ => rfl
  | _ => exact composed_throw _

theorem composed_runProgram (fuel : Nat) (node : Node) : Composed (runProgram fuel node) := by
  cases node with
  | program globals functions =>
    apply (Composed.note 1 fun _ _ => rfl).bind
    intro _
    apply (composed_forM (composed_executeGlobal fuel) globals).bind
    intro _
    apply (composed_forM composed_defineFunction functions).bind
    intro _
    apply Composed.bind
    · apply (composed_findFunction "main" 0).bind
      intro routine
      exact composed_invoke fuel routine []
    · intro result
      refine (Composed.note 1 ?_).bind fun _ => composed_pure result
      exact fun world transcript => by rw [blind_textOf world transcript]
  | _ => exact composed_throw _

end Run

end BlockScript

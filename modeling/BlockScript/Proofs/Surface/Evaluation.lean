import BlockScript.Proofs.Surface.World
/-!
# Runs see surfaces only

Expressions, statements and functions do on a surface what they do on the same surface without their
annotations. What they leave behind is known up to its surface, so what comes after them cannot tell
the difference either.

## Main results

* `Run.alike_evaluate`, `Run.alike_execute` — expressions and statements without annotations
* `Run.alike_invoke` — functions that are the same up to annotations
* `Run.alike_executeGlobal`, `Run.alike_defineFunction` — definitions
* `Run.alike_runProgram` — whole programs
-/

namespace BlockScript

namespace Node

mutual

/-- Where no annotations are left, none can be left out. -/
theorem erase_erase : ∀ node : Node, node.erase.erase = node.erase
  | null | literal .. => rfl
  | group inner _ => by
    rw [erase, erase, erase_erase inner]
  | binary _ left right _ => by
    rw [erase, erase, erase_erase left, erase_erase right]
  | access _ offset _ _ => by
    rw [erase, erase, erase_erase offset]
  | call _ arguments _ _ => by
    rw [erase, erase, eraseAll_eraseAll arguments]
  | listLiteral values _ => by
    rw [erase, erase, eraseAll_eraseAll values]
  | discard expression => by
    rw [erase, erase, erase_erase expression]
  | declaration _ _ value _ => by
    rw [erase, erase, erase_erase value]
  | assignment receiver value => by
    rw [erase, erase, erase_erase receiver, erase_erase value]
  | branch condition thenBody elseBody => by
    rw [erase, erase, erase_erase condition, eraseAll_eraseAll thenBody,
      eraseAll_eraseAll elseBody]
  | case value body => by
    rw [erase, erase, erase_erase value, eraseAll_eraseAll body]
  | switch condition cases => by
    rw [erase, erase, erase_erase condition, eraseAll_eraseAll cases]
  | loop condition body => by
    rw [erase, erase, erase_erase condition, eraseAll_eraseAll body]
  | ret value => by
    rw [erase, erase, erase_erase value]
  | global _ _ _ value _ _ => by
    rw [erase, erase, erase_erase value]
  | function _ _ _ _ body _ => by
    rw [erase, erase, eraseAll_eraseAll body]
  | program globals functions => by
    rw [erase, erase, eraseAll_eraseAll globals, eraseAll_eraseAll functions]

theorem eraseAll_eraseAll : ∀ nodes : List Node, eraseAll (eraseAll nodes) = eraseAll nodes
  | [] => rfl
  | node :: rest => by
    rw [eraseAll, eraseAll, erase_erase node, eraseAll_eraseAll rest]

end

theorem length_eraseAll (nodes : List Node) : (eraseAll nodes).length = nodes.length := by
  rw [eraseAll_eq_map, List.length_map]

end Node

namespace World

/-- The state with more functions behind those that are there. -/
def withRoutines (world : World) (entries : List ((String × Nat) × Routine)) : World :=
  { world with top := { world.top with funs := world.top.funs ++ entries } }

/-- More functions on the same surface, which mean the same, leave the same surface. -/
theorem surface_withRoutines {world world' : World}
    {entries entries' : List ((String × Nat) × Routine)} (hsurface : world.surface = world'.surface)
    (hlookup : ∀ key, (entries.lookup key).map Routine.bare =
      (entries'.lookup key).map Routine.bare) :
    (world.withRoutines entries).surface = (world'.withRoutines entries').surface := by
  obtain ⟨hvars, hheap, htranscript, hfuns⟩ := surface_eq_iff.mp hsurface
  refine surface_eq_iff.mpr ⟨hvars, hheap, htranscript, fun name arity => ?_⟩
  have hold := hfuns name arity
  simp only [withRoutines, Frame.findFunction?, List.lookup_append, Option.map_or] at hold ⊢
  rw [hold, hlookup]

end World

namespace Run

variable {α β γ : Type}

/-- Expressions cannot be told apart from those without annotations, with some fuel. -/
def EvaluatesAlike (fuel : Nat) : Prop :=
  ∀ (locals : DynamicChain) (node : Node),
    Alike id (evaluate fuel locals node) (evaluate fuel locals node.erase)

section

variable {fuel : Nat} {locals : DynamicChain}

theorem alike_condition {condition : Node} {f : α → β} {next next' : Bool → Run α}
    (hevaluate : EvaluatesAlike fuel) (hnext : ∀ holds, Alike f (next holds) (next' holds)) :
    Alike f
      (do next (← requireBoolean (← evaluate fuel locals condition)))
      (do next' (← requireBoolean (← evaluate fuel locals condition.erase))) := by
  apply alike_bind_id (hevaluate locals condition)
  intro chosen
  exact alike_bind_id (alike_requireBoolean chosen) hnext

theorem alike_index {name : String} {slot : Slot} {offset : Node} {f : α → β}
    {next next' : Nat → Nat → Run α} (hevaluate : EvaluatesAlike fuel)
    (hnext : ∀ handle index, Alike f (next handle index) (next' handle index)) :
    Alike f
      (do
        let handle ← requireList name slot
        let index ← requireOffset handle (← evaluate fuel locals offset)
        next handle index)
      (do
        let handle ← requireList name slot
        let index ← requireOffset handle (← evaluate fuel locals offset.erase)
        next' handle index) := by
  apply alike_bind_id (alike_requireList name slot)
  intro handle
  apply alike_bind_id (hevaluate locals offset)
  intro position
  apply alike_bind_id (alike_requireOffset handle position)
  intro index
  exact hnext handle index

theorem alike_binary {symbol : String} {left right : Node} {type : Option Ty}
    (hevaluate : EvaluatesAlike fuel) :
    Alike id (evaluate (fuel + 1) locals (.binary symbol left right type))
      (evaluate (fuel + 1) locals (Node.binary symbol left right type).erase) := by
  have hright : Alike id
      (do return Value.scalar (.boolean (← requireBoolean (← evaluate fuel locals right))))
      (do return Value.scalar (.boolean (← requireBoolean (← evaluate fuel locals right.erase)))) :=
    alike_condition hevaluate fun _ => alike_pure rfl
  apply alike_bind_id (hevaluate locals left)
  intro first
  apply alike_ite
  · exact alike_bind_id (alike_requireBoolean first) fun _ => alike_ite hright (alike_pure rfl)
  apply alike_ite
  · exact alike_bind_id (alike_requireBoolean first) fun _ => alike_ite (alike_pure rfl) hright
  -- any other operator
  apply alike_bind_id (hevaluate locals right)
  intro second
  exact alike_applyToValues symbol first second

theorem alike_assignment {name : String} {offset value : Node} {type : Option Ty}
    {binding : Option Binding} (hevaluate : EvaluatesAlike fuel) :
    Alike id
      (execute (fuel + 1) locals (.assignment (.access name offset type binding) value))
      (execute (fuel + 1) locals (Node.assignment (.access name offset type binding) value).erase)
    := by
  apply alike_bind_id (hevaluate locals value)
  intro result
  apply alike_bind_id (alike_findVariable locals name)
  intro slot
  rw [Node.isNull_erase]
  apply alike_ite
  · apply alike_ite _ alike_throw
    exact alike_bind_id (alike_assign locals name result) fun _ => alike_pure rfl
  · apply alike_index hevaluate
    intro handle index
    exact alike_bind_id (alike_writeItem handle index result) fun _ => alike_pure rfl

/-- An initial value, which may be absent. -/
theorem alike_initial {value : Node} {f : α → β} {next next' : Value → Run α}
    (hevaluate : EvaluatesAlike fuel) (hnext : ∀ initial, Alike f (next initial) (next' initial)) :
    Alike f
      (do
        let initial ← if value.isNull then pure .nil else evaluate fuel locals value
        next initial)
      (do
        let initial ← if value.erase.isNull then pure .nil else evaluate fuel locals value.erase
        next' initial) := by
  rw [Node.isNull_erase]
  exact alike_ite (hnext .nil) (alike_bind_id (hevaluate locals value) hnext)

/-- Whether a case is chosen is found out in the same way. -/
theorem alike_matched {value : Node} {chosen : Value} {f : α → β} {next next' : Bool → Run α}
    (hevaluate : EvaluatesAlike fuel) (hnext : ∀ matched, Alike f (next matched) (next' matched)) :
    Alike f
      (do
        let matched ← if value.isNull then pure true else do
          let found ← evaluate fuel locals value
          let world ← get
          pure ((world.datum found).same (world.datum chosen))
        next matched)
      (do
        let matched ← if value.erase.isNull then pure true else do
          let found ← evaluate fuel locals value.erase
          let world ← get
          pure ((world.datum found).same (world.datum chosen))
        next' matched) := by
  rw [Node.isNull_erase]
  apply alike_ite
  · exact hnext true
  · apply alike_bind_id (hevaluate locals value)
    intro found
    apply alike_get
    intro world world' hsurface
    rw [World.datum_eq hsurface]
    exact hnext _

end

mutual

theorem alike_evaluate : ∀ (fuel : Nat) (locals : DynamicChain) (node : Node),
    Alike id (evaluate fuel locals node) (evaluate fuel locals node.erase)
  | 0, _, _ => alike_throw
  | fuel + 1, locals, node => by
    cases node with
    | literal value _ => exact alike_pure rfl
    | group inner _ => exact alike_evaluate fuel locals inner
    | binary symbol left right type => exact alike_binary (alike_evaluate fuel)
    | access name offset _ _ =>
      apply alike_bind_id (alike_findVariable locals name)
      intro slot
      rw [Node.isNull_erase]
      apply alike_ite (alike_pure rfl)
      apply alike_index (alike_evaluate fuel)
      exact alike_readItem
    | call name arguments _ _ =>
      apply alike_bind_id (alike_evaluateAll fuel locals arguments)
      intro values
      apply alike_bind (alike_findFunction locals name values.length)
      intro routine routine' hroutine
      apply alike_bind_id (alike_note fun _ _ hsurface => by rw [World.textsOf_eq hsurface])
      intro _
      exact alike_invoke fuel hroutine values
    | listLiteral values _ =>
      exact alike_bind_id (alike_evaluateAll fuel locals values) alike_allocate
    | _ => exact alike_throw

theorem alike_evaluateAll : ∀ (fuel : Nat) (locals : DynamicChain) (nodes : List Node),
    Alike id (evaluateAll fuel locals nodes) (evaluateAll fuel locals (Node.eraseAll nodes))
  | 0, _, _ => alike_throw
  | _ + 1, _, [] => alike_pure rfl
  | fuel + 1, locals, node :: rest => by
    apply alike_bind_id (alike_evaluate fuel locals node)
    intro first
    apply alike_bind_id (alike_evaluateAll fuel locals rest)
    intro others
    exact alike_pure rfl

theorem alike_invoke : ∀ (fuel : Nat) {routine routine' : Routine},
    routine.bare = routine'.bare → ∀ arguments : List Value,
      Alike id (invoke fuel routine arguments) (invoke fuel routine' arguments)
  | 0, _, _, _, _ => alike_throw
  | fuel + 1, .print, .print, _, [] => alike_throw
  | fuel + 1, .print, .print, _, argument :: _ =>
    alike_bind_id (alike_print argument) fun _ => alike_pure rfl
  | fuel + 1, .defined name parameters body, .defined name' parameters' body', h, arguments => by
    obtain ⟨rfl, rfl, hbody⟩ := Routine.defined.inj h
    apply alike_ite _ alike_throw
    apply alike_bind_id (alike_bindParameters parameters arguments [{}])
    intro locals
    -- both bodies do what the one without annotations does
    have hblock := alike_executeBlock fuel locals body'
    rw [← hbody] at hblock
    apply alike_bind_id ((alike_executeBlock fuel locals body).trans hblock.symm)
    intro outcome
    obtain ⟨_ | result, behind⟩ := outcome
    · exact alike_pure rfl
    · apply alike_bind_id _ fun _ => alike_pure rfl
      exact alike_note fun _ _ hsurface => by rw [World.textOf_eq hsurface]

theorem alike_execute : ∀ (fuel : Nat) (locals : DynamicChain) (node : Node),
    Alike id (execute fuel locals node) (execute fuel locals node.erase)
  | 0, _, _ => alike_throw
  | fuel + 1, locals, node => by
    cases node with
    | discard expression =>
      exact alike_bind_id (alike_evaluate fuel locals expression) fun _ => alike_pure rfl
    | declaration name _ value binding =>
      apply alike_initial (alike_evaluate fuel)
      intro initial
      apply alike_bind_id (alike_define locals name _)
      intro behind
      apply alike_bind_id _ fun _ => alike_pure rfl
      exact alike_note fun _ _ hsurface => by rw [World.textOf_eq hsurface]
    | assignment receiver value =>
      cases receiver with
      | access name offset _ _ => exact alike_assignment (alike_evaluate fuel)
      | _ => exact alike_bind_id (alike_evaluate fuel locals value) fun _ => alike_throw
    | branch condition thenBody elseBody =>
      apply alike_condition (alike_evaluate fuel)
      intro holds
      apply alike_bind_id (alike_note fun _ _ _ => rfl)
      intro _
      cases holds with
      | true =>
        exact alike_bind_id (alike_executeBlock fuel ({} :: locals) thenBody) fun _ =>
          alike_pure rfl
      | false =>
        exact alike_bind_id (alike_executeBlock fuel ({} :: locals) elseBody) fun _ =>
          alike_pure rfl
    | switch condition cases =>
      apply alike_bind_id (alike_evaluate fuel locals condition)
      intro chosen
      exact alike_executeCases fuel locals chosen cases
    | loop condition body => exact alike_executeLoop fuel locals condition body
    | ret value =>
      exact alike_bind_id (alike_evaluate fuel locals value) fun _ => alike_pure rfl
    | _ => exact alike_throw

theorem alike_executeBlock : ∀ (fuel : Nat) (locals : DynamicChain) (nodes : List Node),
    Alike id (executeBlock fuel locals nodes) (executeBlock fuel locals (Node.eraseAll nodes))
  | 0, _, _ => alike_throw
  | _ + 1, _, [] => alike_pure rfl
  | fuel + 1, locals, statement :: rest => by
    apply alike_bind_id (alike_execute fuel locals statement)
    intro outcome
    obtain ⟨_ | result, behind⟩ := outcome
    · exact alike_executeBlock fuel behind rest
    · exact alike_pure rfl

theorem alike_executeCases : ∀ (fuel : Nat) (locals : DynamicChain) (chosen : Value)
    (nodes : List Node),
    Alike id (executeCases fuel locals chosen nodes)
      (executeCases fuel locals chosen (Node.eraseAll nodes))
  | 0, _, _, _ => alike_throw
  | _ + 1, _, _, [] => alike_pure rfl
  | fuel + 1, locals, chosen, node :: rest => by
    cases node with
    | case value body =>
      apply alike_matched (alike_evaluate fuel)
      intro matched
      apply alike_ite _ (alike_executeCases fuel locals chosen rest)
      exact alike_bind_id (alike_executeBlock fuel ({} :: locals) body) fun _ => alike_pure rfl
    | declaration | assignment | ret | global =>
      apply alike_matched (alike_evaluate fuel)
      intro matched
      exact alike_ite alike_throw (alike_executeCases fuel locals chosen rest)
    | _ => exact alike_throw

theorem alike_executeLoop : ∀ (fuel : Nat) (locals : DynamicChain) (condition : Node)
    (body : List Node),
    Alike id (executeLoop fuel locals condition body)
      (executeLoop fuel locals condition.erase (Node.eraseAll body))
  | 0, _, _, _ => alike_throw
  | fuel + 1, locals, condition, body => by
    apply alike_condition (alike_evaluate fuel)
    intro holds
    apply alike_ite _ (alike_pure rfl)
    apply alike_bind_id (alike_executeBlock fuel ({} :: locals) body)
    intro outcome
    obtain ⟨_ | result, inside⟩ := outcome
    · exact alike_executeLoop fuel inside.tail condition body
    · exact alike_pure rfl

end

/-! ### Definitions -/

theorem alike_executeGlobal (fuel : Nat) (node : Node) :
    Alike id (executeGlobal fuel node) (executeGlobal fuel node.erase) := by
  cases node with
  | global name mutable typeName value isList binding =>
    apply alike_initial (alike_evaluate fuel)
    intro initial
    apply alike_bind_id (alike_define [] name _)
    intro _
    exact alike_note fun _ _ hsurface => by rw [World.textOf_eq hsurface]
  | declaration | assignment | ret | case =>
    apply alike_initial (alike_evaluate fuel)
    intro _
    exact alike_throw
  | _ => exact alike_throw

/-- A function is defined just if it is not there yet. -/
theorem defineFunction_apply {name : String} {parameters : List String}
    {parameterTypes : List (Option String)} {resultType : Option String} {body : List Node}
    {signature : Option Signature} {world : World} :
    defineFunction (.function name parameters parameterTypes resultType body signature) world =
      match world.top.findFunction? name parameters.length with
      | some _ => .error (.error (.scope (.duplicateFunction name parameters.length))) world
      | none =>
        note 2 (fun _ => "define function " ++ name ++ "/" ++ toString parameters.length)
          (world.withRoutines [((name, parameters.length), .defined name parameters body)]) := by
  have hget : ∀ next : World → Run Unit, (get >>= next) world = next world world := fun _ => rfl
  rw [defineFunction, hget, Frame.defineFunction]
  cases h : world.top.findFunction? name parameters.length <;> rfl

theorem alike_defineFunction (node : Node) :
    Alike id (defineFunction node) (defineFunction node.erase) := by
  cases node with
  | function name parameters parameterTypes resultType body signature =>
    intro world world' hsurface
    have hfound := (World.surface_eq_iff.mp hsurface).2.2.2 name parameters.length
    rw [Node.erase, defineFunction_apply, defineFunction_apply]
    cases h : world.top.findFunction? name parameters.length with
    | some routine =>
      rw [h, Option.map_some, eq_comm, Option.map_eq_some_iff] at hfound
      obtain ⟨routine', h', -⟩ := hfound
      rw [h']
      exact congrArg (EStateM.Result.error _) hsurface
    | none =>
      rw [h, Option.map_none, eq_comm, Option.map_eq_none_iff] at hfound
      rw [hfound]
      apply alike_note (fun _ _ _ => rfl)
      apply World.surface_withRoutines hsurface
      intro key
      rw [List.lookup_cons, List.lookup_cons]
      cases key == (name, parameters.length) with
      | true =>
        have hbody := (Node.eraseAll_eraseAll body).symm
        exact congrArg (fun body => some (Routine.defined name parameters body)) hbody
      | false => rfl
  | _ => exact alike_throw

theorem alike_forM {f g : Node → Run Unit} (h : ∀ node, Alike id (f node) (g node.erase))
    (nodes : List Node) : Alike id (nodes.forM f) ((Node.eraseAll nodes).forM g) := by
  induction nodes with
  | nil => exact alike_pure rfl
  | cons node rest ih => exact alike_bind_id (h node) fun _ => ih

theorem alike_callByName (fuel : Nat) (name : String) (arity : Nat) (arguments : List Value) :
    Alike id (callByName fuel name arity arguments) (callByName fuel name arity arguments) := by
  apply alike_bind (alike_findFunction [] name arity)
  intro routine routine' hroutine
  exact alike_invoke fuel hroutine arguments

/-- The end of a run: `main`, and a note of its result. -/
theorem alike_main (fuel : Nat) :
    let main : Run Value := do
      let result ← callByName fuel "main" 0 []
      note 1 fun world => "main returned " ++ world.textOf result
      return result
    Alike id main main := by
  apply alike_bind_id (alike_callByName fuel "main" 0 [])
  intro result
  apply alike_bind_id _ fun _ => alike_pure rfl
  exact alike_note fun _ _ hsurface => by rw [World.textOf_eq hsurface]

theorem alike_runProgram (fuel : Nat) (node : Node) :
    Alike id (runProgram fuel node) (runProgram fuel node.erase) := by
  cases node with
  | program globals functions =>
    rw [Node.erase, runProgram, runProgram, Node.length_eraseAll, Node.length_eraseAll]
    apply alike_bind_id (alike_note fun _ _ _ => rfl)
    intro _
    apply alike_bind_id (alike_forM (alike_executeGlobal fuel) globals)
    intro _
    exact alike_bind_id (alike_forM alike_defineFunction functions) fun _ => alike_main fuel
  | _ => exact alike_throw

end Run

end BlockScript

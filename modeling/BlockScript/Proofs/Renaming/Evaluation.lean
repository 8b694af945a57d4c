import BlockScript.Proofs.Renaming.World
/-!
# Runs with other names

A renamed program does what the program does, with the same fuel: the values are the same, the same
is printed, and a failure is the same but for the name it tells. The proof goes through the rules of
evaluation; in each of them names are only looked up, defined and changed.

## Main results

* `Run.renames_evaluate`, `Run.renames_execute`, `Run.renames_invoke` — expressions, statements and
  functions
* `Run.renames_runProgram` — whole programs
-/

namespace BlockScript

namespace Run

open Node (renamed renamedAll)

variable {α β : Type} {ρ : Renaming} {fuel : Nat}

/-- The outcome of a statement, with new names in the local frames. -/
def renamedOutcome (ρ : Renaming) (outcome : Option Value × DynamicChain) :
    Option Value × DynamicChain :=
  (outcome.1, DynamicChain.renamed ρ outcome.2)

/-- Renamed expressions do with some fuel what the expressions do. -/
def EvaluatesRenamed (ρ : Renaming) (fuel : Nat) : Prop :=
  ∀ (locals : DynamicChain) (node : Node),
    Renames ρ id (evaluate fuel locals node)
      (evaluate fuel (DynamicChain.renamed ρ locals) (node.renamed ρ))

section

variable {f : α → β} {locals : DynamicChain}

/-- A condition is evaluated, and must be true or false. -/
theorem renames_condition {condition : Node} {next : Bool → Run α} {next' : Bool → Run β}
    (hevaluate : EvaluatesRenamed ρ fuel) (hnext : ∀ holds, Renames ρ f (next holds) (next' holds)) :
    Renames ρ f
      (do next (← requireBoolean (← evaluate fuel locals condition)))
      (do next' (← requireBoolean
        (← evaluate fuel (DynamicChain.renamed ρ locals) (condition.renamed ρ)))) := by
  apply renames_bind (hevaluate locals condition)
  intro chosen
  exact renames_bind (renames_requireBoolean chosen) hnext

/-- The list of a variable, and the index that an offset denotes. -/
theorem renames_index {name : String} {slot : Slot} {offset : Node} {next : Nat → Nat → Run α}
    {next' : Nat → Nat → Run β} (hevaluate : EvaluatesRenamed ρ fuel)
    (hnext : ∀ handle index, Renames ρ f (next handle index) (next' handle index)) :
    Renames ρ f
      (do
        let handle ← requireList name slot
        let index ← requireOffset handle (← evaluate fuel locals offset)
        next handle index)
      (do
        let handle ← requireList (ρ.varName name) slot
        let index ← requireOffset handle
          (← evaluate fuel (DynamicChain.renamed ρ locals) (offset.renamed ρ))
        next' handle index) := by
  apply renames_bind (renames_requireList name slot)
  intro handle
  apply renames_bind (hevaluate locals offset)
  intro position
  apply renames_bind (renames_requireOffset handle position)
  intro index
  exact hnext handle index

theorem renames_binary {symbol : String} {left right : Node} {type : Option Ty}
    (hevaluate : EvaluatesRenamed ρ fuel) :
    Renames ρ id (evaluate (fuel + 1) locals (.binary symbol left right type))
      (evaluate (fuel + 1) (DynamicChain.renamed ρ locals)
        ((Node.binary symbol left right type).renamed ρ)) := by
  have hright : Renames ρ id
      (do return Value.scalar (.boolean (← requireBoolean (← evaluate fuel locals right))))
      (do return Value.scalar (.boolean (← requireBoolean
        (← evaluate fuel (DynamicChain.renamed ρ locals) (right.renamed ρ))))) :=
    renames_condition hevaluate fun _ => renames_pure rfl
  apply renames_bind (hevaluate locals left)
  intro first
  -- a conjunction, which needs its right operand only if the left one holds
  apply renames_ite
  · apply renames_bind (renames_requireBoolean first)
    intro holds
    exact renames_ite hright (renames_pure rfl)
  -- a disjunction, which needs it only if the left one does not
  apply renames_ite
  · apply renames_bind (renames_requireBoolean first)
    intro holds
    exact renames_ite (renames_pure rfl) hright
  -- any other operator
  apply renames_bind (hevaluate locals right)
  intro second
  exact renames_applyToValues symbol first second

theorem renames_assignment (hρ : ρ.Regular) {name : String} {offset value : Node}
    {type : Option Ty} {binding : Option Binding} (hevaluate : EvaluatesRenamed ρ fuel) :
    Renames ρ (renamedOutcome ρ)
      (execute (fuel + 1) locals (.assignment (.access name offset type binding) value))
      (execute (fuel + 1) (DynamicChain.renamed ρ locals)
        ((Node.assignment (.access name offset type binding) value).renamed ρ)) := by
  apply renames_bind (hevaluate locals value)
  intro result
  apply renames_bind (renames_findVariable hρ)
  intro slot
  rw [Node.isNull_renamed]
  apply renames_ite
  · -- the variable itself changes, if it may
    apply renames_ite _ (renames_throw rfl)
    apply renames_bind (renames_assign hρ.toSeparates)
    intro behind
    exact renames_pure rfl
  · -- an item of its list changes, and no frame does
    apply renames_index hevaluate
    intro handle index
    apply renames_bind (renames_writeItem handle index result)
    intro _
    exact renames_pure rfl

/-- An initial value, which may be absent. -/
theorem renames_initial {value : Node} {next : Value → Run α} {next' : Value → Run β}
    (hevaluate : EvaluatesRenamed ρ fuel)
    (hnext : ∀ initial, Renames ρ f (next initial) (next' initial)) :
    Renames ρ f
      (do
        let initial ← if value.isNull then pure .nil else evaluate fuel locals value
        next initial)
      (do
        let initial ← if (value.renamed ρ).isNull then pure .nil
          else evaluate fuel (DynamicChain.renamed ρ locals) (value.renamed ρ)
        next' initial) := by
  rw [Node.isNull_renamed]
  exact renames_ite (hnext .nil) (renames_bind (hevaluate locals value) hnext)

/-- Whether a case is chosen is found out in the same way. -/
theorem renames_matched {value : Node} {chosen : Value} {next : Bool → Run α}
    {next' : Bool → Run β} (hevaluate : EvaluatesRenamed ρ fuel)
    (hnext : ∀ matched, Renames ρ f (next matched) (next' matched)) :
    Renames ρ f
      (do
        let matched ← if value.isNull then pure true else do
          let found ← evaluate fuel locals value
          let world ← get
          pure ((world.datum found).same (world.datum chosen))
        next matched)
      (do
        let matched ← if (value.renamed ρ).isNull then pure true else do
          let found ← evaluate fuel (DynamicChain.renamed ρ locals) (value.renamed ρ)
          let world ← get
          pure ((world.datum found).same (world.datum chosen))
        next' matched) := by
  rw [Node.isNull_renamed]
  apply renames_ite
  · exact hnext true
  · apply renames_bind (hevaluate locals value)
    intro found
    apply renames_get
    intro world _
    rw [World.datum_renamed]
    exact hnext _

/-- A block goes on in a frame of its own, and is left. -/
theorem renames_inside {x y : Run (Option Value × DynamicChain)}
    (h : Renames ρ (renamedOutcome ρ) x y) :
    Renames ρ (renamedOutcome ρ)
      (do
        let (outcome, inside) ← x
        return (outcome, inside.tail))
      (do
        let (outcome, inside) ← y
        return (outcome, inside.tail)) := by
  apply renames_bind h
  intro outcome
  apply renames_pure
  simp [renamedOutcome, DynamicChain.renamed]

end

-- The induction is on the fuel, along the calls of the interpreter. No step keeps a note, so a name
-- in a note makes no difference to the steps behind it.
mutual

theorem renames_evaluate (hρ : ρ.Regular) : ∀ (fuel : Nat) (locals : DynamicChain) (node : Node),
    Renames ρ id (evaluate fuel locals node)
      (evaluate fuel (DynamicChain.renamed ρ locals) (node.renamed ρ))
  | 0, _, _ => renames_throw rfl
  | fuel + 1, locals, node => by
    cases node with
    | literal value _ => exact renames_pure rfl
    | group inner _ => exact renames_evaluate hρ fuel locals inner
    | binary symbol left right type => exact renames_binary (renames_evaluate hρ fuel)
    | access name offset _ _ =>
      apply renames_bind (renames_findVariable hρ)
      intro slot
      rw [Node.isNull_renamed]
      apply renames_ite (renames_pure rfl)
      apply renames_index (renames_evaluate hρ fuel)
      exact renames_readItem
    | call name arguments _ _ =>
      apply renames_bind (renames_evaluateAll hρ fuel locals arguments)
      intro values
      apply renames_bind (renames_findFunction hρ)
      intro routine
      apply renames_bind renames_note
      intro _
      exact renames_invoke hρ fuel routine values
    | listLiteral values _ =>
      apply renames_bind (renames_evaluateAll hρ fuel locals values)
      exact renames_allocate
    | _ => exact renames_throw rfl

theorem renames_evaluateAll (hρ : ρ.Regular) : ∀ (fuel : Nat) (locals : DynamicChain)
    (nodes : List Node),
    Renames ρ id (evaluateAll fuel locals nodes)
      (evaluateAll fuel (DynamicChain.renamed ρ locals) (renamedAll ρ nodes))
  | 0, _, _ => renames_throw rfl
  | _ + 1, _, [] => renames_pure rfl
  | fuel + 1, locals, node :: rest => by
    apply renames_bind (renames_evaluate hρ fuel locals node)
    intro first
    apply renames_bind (renames_evaluateAll hρ fuel locals rest)
    intro others
    exact renames_pure rfl

theorem renames_invoke (hρ : ρ.Regular) : ∀ (fuel : Nat) (routine : Routine)
    (arguments : List Value),
    Renames ρ id (invoke fuel routine arguments) (invoke fuel (routine.renamed ρ) arguments)
  | 0, _, _ => renames_throw rfl
  | fuel + 1, .print, [] => renames_throw rfl
  | fuel + 1, .print, argument :: _ => by
    apply renames_bind (renames_print argument)
    intro _
    exact renames_pure rfl
  | fuel + 1, .defined name parameters body, arguments => by
    rw [Routine.renamed, invoke, invoke, List.length_map]
    apply renames_ite _ (renames_throw rfl)
    apply renames_bind (renames_bindParameters hρ.toSeparates parameters arguments [{}])
    intro locals
    apply renames_bind (renames_executeBlock hρ fuel locals body)
    intro outcome
    cases outcome with
    | mk found behind =>
      cases found with
      | none => exact renames_pure rfl
      | some result =>
        apply renames_bind renames_note
        intro _
        exact renames_pure rfl

theorem renames_execute (hρ : ρ.Regular) : ∀ (fuel : Nat) (locals : DynamicChain) (node : Node),
    Renames ρ (renamedOutcome ρ) (execute fuel locals node)
      (execute fuel (DynamicChain.renamed ρ locals) (node.renamed ρ))
  | 0, _, _ => renames_throw rfl
  | fuel + 1, locals, node => by
    cases node with
    | discard expression =>
      apply renames_bind (renames_evaluate hρ fuel locals expression)
      intro _
      exact renames_pure rfl
    | declaration name _ value binding =>
      apply renames_initial (renames_evaluate hρ fuel)
      intro initial
      apply renames_bind (renames_define hρ.toSeparates)
      intro behind
      apply renames_bind renames_note
      intro _
      exact renames_pure rfl
    | assignment receiver value =>
      cases receiver with
      | access name offset _ _ => exact renames_assignment hρ (renames_evaluate hρ fuel)
      | _ =>
        -- the value is evaluated all the same, and may fail first
        apply renames_bind (renames_evaluate hρ fuel locals value)
        intro _
        exact renames_throw rfl
    | branch condition thenBody elseBody =>
      apply renames_condition (renames_evaluate hρ fuel)
      intro holds
      apply renames_bind renames_note
      intro _
      apply renames_inside
      cases holds with
      | true => exact renames_executeBlock hρ fuel ({} :: locals) thenBody
      | false => exact renames_executeBlock hρ fuel ({} :: locals) elseBody
    | switch condition cases =>
      apply renames_bind (renames_evaluate hρ fuel locals condition)
      intro chosen
      exact renames_executeCases hρ fuel locals chosen cases
    | loop condition body => exact renames_executeLoop hρ fuel locals condition body
    | ret value =>
      apply renames_bind (renames_evaluate hρ fuel locals value)
      intro result
      exact renames_pure rfl
    | _ => exact renames_throw rfl

theorem renames_executeBlock (hρ : ρ.Regular) : ∀ (fuel : Nat) (locals : DynamicChain)
    (nodes : List Node),
    Renames ρ (renamedOutcome ρ) (executeBlock fuel locals nodes)
      (executeBlock fuel (DynamicChain.renamed ρ locals) (renamedAll ρ nodes))
  | 0, _, _ => renames_throw rfl
  | _ + 1, _, [] => renames_pure rfl
  | fuel + 1, locals, statement :: rest => by
    apply renames_bind (renames_execute hρ fuel locals statement)
    intro outcome
    cases outcome with
    | mk found behind =>
      cases found with
      | none => exact renames_executeBlock hρ fuel behind rest
      | some result => exact renames_pure rfl

theorem renames_executeCases (hρ : ρ.Regular) : ∀ (fuel : Nat) (locals : DynamicChain)
    (chosen : Value) (nodes : List Node),
    Renames ρ (renamedOutcome ρ) (executeCases fuel locals chosen nodes)
      (executeCases fuel (DynamicChain.renamed ρ locals) chosen (renamedAll ρ nodes))
  | 0, _, _, _ => renames_throw rfl
  | _ + 1, _, _, [] => renames_pure rfl
  | fuel + 1, locals, chosen, node :: rest => by
    cases node with
    | case value body =>
      apply renames_matched (renames_evaluate hρ fuel)
      intro matched
      apply renames_ite _ (renames_executeCases hρ fuel locals chosen rest)
      exact renames_inside (renames_executeBlock hρ fuel ({} :: locals) body)
    | declaration | assignment | ret | global =>
      -- nodes with a value, which is compared before they turn out to be no cases
      apply renames_matched (renames_evaluate hρ fuel)
      intro matched
      exact renames_ite (renames_throw rfl) (renames_executeCases hρ fuel locals chosen rest)
    | _ => exact renames_throw rfl

theorem renames_executeLoop (hρ : ρ.Regular) : ∀ (fuel : Nat) (locals : DynamicChain)
    (condition : Node) (body : List Node),
    Renames ρ (renamedOutcome ρ) (executeLoop fuel locals condition body)
      (executeLoop fuel (DynamicChain.renamed ρ locals) (condition.renamed ρ) (renamedAll ρ body))
  | 0, _, _, _ => renames_throw rfl
  | fuel + 1, locals, condition, body => by
    apply renames_condition (renames_evaluate hρ fuel)
    intro holds
    apply renames_ite _ (renames_pure rfl)
    apply renames_bind (renames_executeBlock hρ fuel ({} :: locals) body)
    intro outcome
    -- the frame of the body is left on both sides
    have htail : (DynamicChain.renamed ρ outcome.2).tail =
        DynamicChain.renamed ρ outcome.2.tail := by
      simp [DynamicChain.renamed]
    cases outcome with
    | mk found inside =>
      cases found with
      | none =>
        have hloop := renames_executeLoop hρ fuel inside.tail condition body
        rwa [← htail] at hloop
      | some result => exact renames_pure (congrArg (Prod.mk (some result)) htail)

end

/-! ### Programs -/

theorem renames_executeGlobal (hρ : ρ.Regular) (fuel : Nat) (node : Node) :
    Renames ρ id (executeGlobal fuel node) (executeGlobal fuel (node.renamed ρ)) := by
  cases node with
  | global name mutable typeName value isList binding =>
    apply renames_initial (renames_evaluate hρ fuel)
    intro initial
    apply renames_bind (renames_define hρ.toSeparates)
    intro _
    exact renames_note
  | declaration | assignment | ret | case =>
    -- nodes with a value, which is evaluated before they turn out to be no global variables
    apply renames_initial (renames_evaluate hρ fuel)
    intro _
    exact renames_throw rfl
  | _ => exact renames_throw rfl

theorem renames_defineFunction (hρ : ρ.Regular) (node : Node) :
    Renames ρ id (defineFunction node) (defineFunction (node.renamed ρ)) := by
  cases node with
  | function name parameters parameterTypes resultType body signature =>
    apply renames_get
    intro world hworld
    have hdefine : Frame.defineFunction (DynamicFrame.renamed ρ world.top) (ρ.funName name)
        (parameters.map ρ.varName).length (Routine.renamed ρ (.defined name parameters body)) =
          ((world.top.defineFunction name parameters.length (.defined name parameters body)).map
            (DynamicFrame.renamed ρ)).mapError (ScopeError.renamed ρ) := by
      rw [List.length_map]
      exact Frame.defineFunction_renamed hρ.toSeparates
    apply renames_bind (renames_ofScope hdefine)
    intro top
    have hafter : World.KeepsNothing { world with top } := hworld
    apply renames_bind (renames_set hafter)
    intro _
    exact renames_note
  | _ => exact renames_throw rfl

theorem renames_forM {x : Node → Run Unit}
    (h : ∀ node, Renames ρ id (x node) (x (node.renamed ρ))) (nodes : List Node) :
    Renames ρ id (nodes.forM x) ((renamedAll ρ nodes).forM x) := by
  induction nodes with
  | nil => exact renames_pure rfl
  | cons node rest ih =>
    apply renames_bind (h node)
    intro _
    exact ih

theorem renames_callMain (hρ : ρ.Regular) (fuel : Nat) :
    Renames ρ id (callByName fuel "main" 0 []) (callByName fuel "main" 0 []) := by
  have hfind : Renames ρ (Routine.renamed ρ) (findFunction [] "main" 0)
      (findFunction (DynamicChain.renamed ρ []) (ρ.funName "main") 0) := renames_findFunction hρ
  rw [hρ.funName_main] at hfind
  apply renames_bind hfind
  intro routine
  exact renames_invoke hρ fuel routine []

/-- A renamed program does what the program does. -/
theorem renames_runProgram (hρ : ρ.Regular) (fuel : Nat) (node : Node) :
    Renames ρ id (runProgram fuel node) (runProgram fuel (node.renamed ρ)) := by
  cases node with
  | program globals functions =>
    apply renames_bind renames_note
    intro _
    apply renames_bind (renames_forM (renames_executeGlobal hρ fuel) globals)
    intro _
    apply renames_bind (renames_forM (renames_defineFunction hρ) functions)
    intro _
    apply renames_bind (renames_callMain hρ fuel)
    intro result
    apply renames_bind renames_note
    intro _
    exact renames_pure rfl
  | _ => exact renames_throw rfl

end Run

end BlockScript

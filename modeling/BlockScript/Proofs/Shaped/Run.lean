import BlockScript.Proofs.Accepted
import BlockScript.Proofs.Shaped.World
/-!
# Runs of walkable trees

The run of a program whose nodes stand where they have a meaning ends with a value, with an error of
the program, or not at all. Nothing is known about types: every operator may meet values of any two
kinds, names may be unbound or defined twice, and calls may have any number of arguments. The
analysis has no part in this.

The induction is on the fuel, over all parts of the interpreter at once. What carries it is that all
functions that can be found have walkable bodies, so it does not matter which one a call leads to.

## Main definitions

* `World.Reached` — the states that runs of source texts lead to, one after the other

## Main results

* `keeps_evaluate`, `keeps_execute`, `keeps_runProgram` — walkable trees keep the state as it should
  be
* `run_ends_with_value_or_error` — programs from source texts, without analysis
-/

namespace BlockScript

open Node Run

variable {allowed : Scalar → Prop} {fuel : Nat} {locals : DynamicChain} {α : Type} {P : α → Prop}

/-- An outcome is within what is allowed, and so are the frames behind it. -/
def OutcomeWithin (allowed : Scalar → Prop) (outcome : Option Value × DynamicChain) : Prop :=
  (∀ result ∈ outcome.1, result.Within allowed) ∧ ∀ frame ∈ outcome.2, frame.Within allowed

theorem outcomeWithin_none (hlocals : ∀ frame ∈ locals, frame.Within allowed) :
    OutcomeWithin allowed (none, locals) :=
  ⟨nofun, hlocals⟩

/-- A block is left with the frames around it. -/
theorem OutcomeWithin.tail {outcome : Option Value} {inside : DynamicChain}
    (h : OutcomeWithin allowed (outcome, inside)) : OutcomeWithin allowed (outcome, inside.tail) :=
  ⟨h.1, fun frame hframe => h.2 frame (List.mem_of_mem_tail hframe)⟩

theorem within_enter (hlocals : ∀ frame ∈ locals, frame.Within allowed) :
    ∀ frame ∈ ({} : DynamicFrame) :: locals, frame.Within allowed :=
  List.forall_mem_cons.mpr ⟨Frame.within_empty, hlocals⟩

/-! ### Expressions and statements -/

section

/-- Expressions are evaluated within what is allowed, with some fuel. -/
def EvaluatesWithin (allowed : Scalar → Prop) (fuel : Nat) : Prop :=
  ∀ (locals : DynamicChain) (node : Node), (∀ frame ∈ locals, frame.Within allowed) →
    IsExpression allowed node →
    Keeps allowed (evaluate fuel locals node) fun value => value.Within allowed

variable (hclosed : Scalar.Closed allowed) (hevaluate : EvaluatesWithin allowed fuel)
  (hlocals : ∀ frame ∈ locals, frame.Within allowed)

include hevaluate hlocals

theorem keeps_condition {condition : Node} (hcondition : IsExpression allowed condition)
    {next : Bool → Run α} (hnext : ∀ holds, Keeps allowed (next holds) P) :
    Keeps allowed (do
      let holds ← requireBoolean (← evaluate fuel locals condition)
      next holds) P := by
  apply (hevaluate locals condition hlocals hcondition).bind
  intro value _
  exact (keeps_requireBoolean value).bind fun holds _ => hnext holds

theorem keeps_index {name : String} {slot : Slot} {offset : Node}
    (hoffset : IsExpression allowed offset) {next : Nat → Nat → Run α}
    (hnext : ∀ handle index, Keeps allowed (next handle index) P) :
    Keeps allowed (do
      let handle ← requireList name slot
      let index ← requireOffset handle (← evaluate fuel locals offset)
      next handle index) P := by
  apply (keeps_requireList slot).bind
  intro handle _
  apply (hevaluate locals offset hlocals hoffset).bind
  intro value _
  exact (keeps_requireOffset handle value).bind fun index _ => hnext handle index

/-- An initial value, which may be absent. -/
theorem keeps_initial {value : Node} (hclosed : Scalar.Closed allowed)
    (hvalue : IsInitial allowed value) {next : Value → Run α}
    (hnext : ∀ initial, initial.Within allowed → Keeps allowed (next initial) P) :
    Keeps allowed (do
      let initial ← if value.isNull then pure .nil else evaluate fuel locals value
      next initial) P := by
  cases hvalue with
  | absent => exact hnext .nil hclosed.nil
  | present h =>
    rw [h.isNull_eq]
    exact (hevaluate locals value hlocals h).bind hnext

include hclosed

theorem keeps_binary {symbol : String} {left right : Node} {type : Option Ty}
    (hleft : IsExpression allowed left) (hright : IsExpression allowed right) :
    Keeps allowed (evaluate (fuel + 1) locals (.binary symbol left right type)) fun value =>
      value.Within allowed := by
  have hboolean : ∀ holds, Keeps allowed (pure (Value.scalar (.boolean holds))) fun value =>
      value.Within allowed := fun holds => keeps_pure (hclosed.boolean holds)
  have hsecond : Keeps allowed (do
      return Value.scalar (.boolean (← requireBoolean (← evaluate fuel locals right)))) fun value =>
        value.Within allowed := keeps_condition hevaluate hlocals hright hboolean
  apply (hevaluate locals left hlocals hleft).bind
  intro first hfirst
  apply keeps_ite
  · exact (keeps_requireBoolean first).bind fun _ _ => keeps_ite hsecond (hboolean false)
  apply keeps_ite
  · exact (keeps_requireBoolean first).bind fun _ _ => keeps_ite (hboolean true) hsecond
  -- any other operator
  apply (hevaluate locals right hlocals hright).bind
  intro second hsecond
  exact keeps_applyToValues hclosed symbol hfirst hsecond

theorem keeps_access {name : String} {offset : Node} {type : Option Ty} {binding : Option Binding}
    (hoffset : IsInitial allowed offset) :
    Keeps allowed (evaluate (fuel + 1) locals (.access name offset type binding)) fun value =>
      value.Within allowed := by
  apply (keeps_findVariable hlocals).bind
  intro slot hslot
  cases hoffset with
  | absent => exact keeps_pure hslot
  | present h =>
    rw [h.isNull_eq]
    exact keeps_index hevaluate hlocals h (keeps_readItem hclosed)

omit hclosed

/-- A receiver that is no variable is refused, whatever else it is. -/
theorem keeps_assignment {receiver value : Node} (hreceiver : IsExpression allowed receiver)
    (hvalue : IsExpression allowed value) :
    Keeps allowed (execute (fuel + 1) locals (.assignment receiver value))
      (OutcomeWithin allowed) := by
  apply (hevaluate locals value hlocals hvalue).bind
  intro result hresult
  cases receiver with
  | access name offset type binding =>
    apply (keeps_findVariable hlocals).bind
    intro slot _
    cases hreceiver.offset with
    | absent =>
      apply keeps_ite _ (keeps_refuse _)
      apply (keeps_assign hlocals hresult).bind
      intro locals hlocals
      exact keeps_pure (outcomeWithin_none hlocals)
    | present h =>
      rw [h.isNull_eq]
      apply keeps_index hevaluate hlocals h
      intro handle index
      apply (keeps_writeItem handle index hresult).bind
      intro _ _
      exact keeps_pure (outcomeWithin_none hlocals)
  | _ => exact keeps_refuse _

/-- Whether a case is chosen is found out within what is allowed. -/
theorem keeps_matched {value : Node} (hvalue : IsInitial allowed value) {chosen : Value}
    {next : Bool → Run α} (hnext : ∀ matched, Keeps allowed (next matched) P) :
    Keeps allowed (do
      let matched ← if value.isNull then pure true else do
        let found ← evaluate fuel locals value
        let world ← get
        pure ((world.datum found).same (world.datum chosen))
      next matched) P := by
  cases hvalue with
  | absent => exact hnext true
  | present h =>
    rw [h.isNull_eq]
    apply (hevaluate locals value hlocals h).bind
    intro found _
    exact keeps_get fun world _ => hnext _

end

mutual

theorem keeps_evaluate (hclosed : Scalar.Closed allowed) : ∀ fuel, EvaluatesWithin allowed fuel
  | 0, _, _, _, _ => keeps_throw .outOfFuel
  | fuel + 1, locals, node, hlocals, hnode => by
    have hevaluate := keeps_evaluate hclosed fuel
    cases hnode with
    | literal hvalue => exact keeps_pure hvalue
    | group h => exact hevaluate locals _ hlocals h
    | binary hleft hright => exact keeps_binary hclosed hevaluate hlocals hleft hright
    | «variable» => exact keeps_access hclosed hevaluate hlocals .absent
    | element h => exact keeps_access hclosed hevaluate hlocals (.present h)
    | call harguments =>
      apply (keeps_evaluateAll hclosed fuel hlocals harguments).bind
      intro values hvalues
      apply (keeps_findFunction hlocals).bind
      intro routine hroutine
      apply keeps_note.bind
      intro _ _
      exact keeps_invoke hclosed fuel hroutine hvalues
    | listLiteral hvalues =>
      apply (keeps_evaluateAll hclosed fuel hlocals hvalues).bind
      intro items hitems
      exact keeps_allocate hitems

theorem keeps_evaluateAll (hclosed : Scalar.Closed allowed) : ∀ (fuel : Nat)
    {locals : DynamicChain} {nodes : List Node}, (∀ frame ∈ locals, frame.Within allowed) →
    (∀ node ∈ nodes, IsExpression allowed node) →
    Keeps allowed (evaluateAll fuel locals nodes) fun values =>
      ∀ value ∈ values, value.Within allowed
  | 0, _, _, _, _ => keeps_throw .outOfFuel
  | _ + 1, _, [], _, _ => keeps_pure (List.forall_mem_nil _)
  | fuel + 1, locals, node :: rest, hlocals, hnodes => by
    obtain ⟨hnode, hrest⟩ := List.forall_mem_cons.mp hnodes
    apply (keeps_evaluate hclosed fuel locals node hlocals hnode).bind
    intro first hfirst
    apply (keeps_evaluateAll hclosed fuel hlocals hrest).bind
    intro others hothers
    exact keeps_pure (List.forall_mem_cons.mpr ⟨hfirst, hothers⟩)

theorem keeps_invoke (hclosed : Scalar.Closed allowed) : ∀ (fuel : Nat) {routine : Routine}
    {arguments : List Value}, routine.Within allowed arguments.length →
    (∀ argument ∈ arguments, argument.Within allowed) →
    Keeps allowed (invoke fuel routine arguments) fun value => value.Within allowed
  | 0, _, _, _, _ => keeps_throw .outOfFuel
  | fuel + 1, .print, arguments, hroutine, _ => by
    cases arguments with
    | nil => exact absurd hroutine Nat.zero_ne_one
    | cons argument rest =>
      refine Keeps.bind (keeps_modify fun _ hworld => hworld.withTranscript) fun _ _ => ?_
      exact keeps_pure hclosed.nil
  | fuel + 1, .defined name parameters body, arguments, hroutine, harguments => by
    apply keeps_ite _ (keeps_refuse _)
    apply (keeps_bindParameters parameters harguments (within_enter (List.forall_mem_nil _))).bind
    intro locals hlocals
    apply (keeps_executeBlock hclosed fuel hlocals hroutine).bind
    rintro ⟨_ | result, _⟩ ⟨hresult, -⟩
    · exact keeps_pure hclosed.nil
    · exact keeps_note.bind fun _ _ => keeps_pure (hresult result rfl)

theorem keeps_execute (hclosed : Scalar.Closed allowed) : ∀ (fuel : Nat) {locals : DynamicChain}
    {node : Node}, (∀ frame ∈ locals, frame.Within allowed) → IsStatement allowed node →
    Keeps allowed (execute fuel locals node) (OutcomeWithin allowed)
  | 0, _, _, _, _ => keeps_throw .outOfFuel
  | fuel + 1, locals, node, hlocals, hnode => by
    have hevaluate := keeps_evaluate hclosed fuel
    cases hnode with
    | discard h =>
      apply (hevaluate locals _ hlocals h).bind
      intro _ _
      exact keeps_pure (outcomeWithin_none hlocals)
    | declaration h =>
      apply keeps_initial hevaluate hlocals hclosed h
      intro initial hinitial
      apply (keeps_define hlocals hinitial).bind
      intro locals hlocals
      exact keeps_note.bind fun _ _ => keeps_pure (outcomeWithin_none hlocals)
    | assignment hreceiver hvalue => exact keeps_assignment hevaluate hlocals hreceiver hvalue
    | @branch _ thenBody elseBody hcondition hthen helse =>
      apply keeps_condition hevaluate hlocals hcondition
      intro holds
      apply keeps_note.bind
      intro _ _
      have hbody : ∀ statement ∈ if holds then thenBody else elseBody,
          IsStatement allowed statement := by
        cases holds
        · exact helse
        · exact hthen
      apply (keeps_executeBlock hclosed fuel (within_enter hlocals) hbody).bind
      rintro ⟨outcome, inside⟩ houtcome
      exact keeps_pure houtcome.tail
    | switch hcondition hcases =>
      apply (hevaluate locals _ hlocals hcondition).bind
      intro chosen _
      exact keeps_executeCases hclosed fuel hlocals hcases
    | loop hcondition hbody => exact keeps_executeLoop hclosed fuel hlocals hcondition hbody
    | ret h =>
      apply (hevaluate locals _ hlocals h).bind
      intro result hresult
      exact keeps_pure ⟨fun _ h => Option.some.inj h ▸ hresult, hlocals⟩

theorem keeps_executeBlock (hclosed : Scalar.Closed allowed) : ∀ (fuel : Nat)
    {locals : DynamicChain} {nodes : List Node}, (∀ frame ∈ locals, frame.Within allowed) →
    (∀ node ∈ nodes, IsStatement allowed node) →
    Keeps allowed (executeBlock fuel locals nodes) (OutcomeWithin allowed)
  | 0, _, _, _, _ => keeps_throw .outOfFuel
  | _ + 1, _, [], hlocals, _ => keeps_pure (outcomeWithin_none hlocals)
  | fuel + 1, locals, node :: rest, hlocals, hnodes => by
    obtain ⟨hnode, hrest⟩ := List.forall_mem_cons.mp hnodes
    apply (keeps_execute hclosed fuel hlocals hnode).bind
    rintro ⟨_ | result, behind⟩ houtcome
    · exact keeps_executeBlock hclosed fuel houtcome.2 hrest
    · exact keeps_pure houtcome

theorem keeps_executeCases (hclosed : Scalar.Closed allowed) : ∀ (fuel : Nat)
    {locals : DynamicChain} {chosen : Value} {nodes : List Node},
    (∀ frame ∈ locals, frame.Within allowed) → (∀ node ∈ nodes, IsCase allowed node) →
    Keeps allowed (executeCases fuel locals chosen nodes) (OutcomeWithin allowed)
  | 0, _, _, _, _, _ => keeps_throw .outOfFuel
  | _ + 1, _, _, [], hlocals, _ => keeps_pure (outcomeWithin_none hlocals)
  | fuel + 1, locals, chosen, node :: rest, hlocals, hnodes => by
    obtain ⟨hnode, hrest⟩ := List.forall_mem_cons.mp hnodes
    cases hnode with
    | mk hvalue hbody =>
      apply keeps_matched (keeps_evaluate hclosed fuel) hlocals hvalue
      intro matched
      apply keeps_ite _ (keeps_executeCases hclosed fuel hlocals hrest)
      apply (keeps_executeBlock hclosed fuel (within_enter hlocals) hbody).bind
      rintro ⟨outcome, inside⟩ houtcome
      exact keeps_pure houtcome.tail

theorem keeps_executeLoop (hclosed : Scalar.Closed allowed) : ∀ (fuel : Nat)
    {locals : DynamicChain} {condition : Node} {body : List Node},
    (∀ frame ∈ locals, frame.Within allowed) → IsExpression allowed condition →
    (∀ node ∈ body, IsStatement allowed node) →
    Keeps allowed (executeLoop fuel locals condition body) (OutcomeWithin allowed)
  | 0, _, _, _, _, _, _ => keeps_throw .outOfFuel
  | fuel + 1, locals, condition, body, hlocals, hcondition, hbody => by
    apply keeps_condition (keeps_evaluate hclosed fuel) hlocals hcondition
    intro holds
    apply keeps_ite _ (keeps_pure (outcomeWithin_none hlocals))
    apply (keeps_executeBlock hclosed fuel (within_enter hlocals) hbody).bind
    rintro ⟨_ | result, inside⟩ houtcome
    · exact keeps_executeLoop hclosed fuel houtcome.tail.2 hcondition hbody
    · exact keeps_pure houtcome.tail

end

/-! ### Programs -/

theorem keeps_forM {nodes : List Node} {step : Node → Run Unit}
    (h : ∀ node ∈ nodes, Keeps allowed (step node) fun _ => True) :
    Keeps allowed (nodes.forM step) fun _ => True := by
  induction nodes with
  | nil => exact keeps_pure trivial
  | cons node rest ih =>
    obtain ⟨hnode, hrest⟩ := List.forall_mem_cons.mp h
    exact hnode.bind fun _ _ => ih hrest

theorem keeps_executeGlobal (hclosed : Scalar.Closed allowed) {node : Node}
    (h : IsGlobal allowed node) : Keeps allowed (executeGlobal fuel node) fun _ => True := by
  cases h with
  | mk hvalue =>
    apply keeps_initial (keeps_evaluate hclosed fuel) (List.forall_mem_nil _) hclosed hvalue
    intro initial hinitial
    exact (keeps_define (List.forall_mem_nil _) hinitial).bind fun _ _ => keeps_note

theorem keeps_defineFunction {node : Node} (h : IsFunction allowed node) :
    Keeps allowed (defineFunction node) fun _ => True := by
  cases h with
  | mk hbody =>
    apply keeps_get
    intro world hworld
    refine Keeps.bind (keeps_ofScope fun top => hworld.top.defineFunction hbody)
      fun top htop => ?_
    have hset : Keeps allowed (set { world with top }) fun _ => True :=
      fun _ _ => ⟨hworld.withTop htop, trivial⟩
    exact hset.bind fun _ _ => keeps_note

theorem keeps_runProgram (hclosed : Scalar.Closed allowed) {program : Node}
    (h : IsProgram allowed program) (fuel : Nat) :
    Keeps allowed (runProgram fuel program) fun value => value.Within allowed := by
  cases h with
  | mk hglobals hfunctions =>
    apply keeps_note.bind
    intro _ _
    apply (keeps_forM fun node hnode => keeps_executeGlobal hclosed (hglobals node hnode)).bind
    intro _ _
    apply (keeps_forM fun node hnode => keeps_defineFunction (hfunctions node hnode)).bind
    intro _ _
    have hmain : Keeps allowed (callByName fuel "main" 0 []) fun value => value.Within allowed := by
      apply (keeps_findFunction (List.forall_mem_nil _)).bind
      intro routine hroutine
      exact keeps_invoke hclosed fuel hroutine (List.forall_mem_nil _)
    apply hmain.bind
    intro result hresult
    exact keeps_note.bind fun _ _ => keeps_pure hresult

/-! ### Source texts -/

/-- A state that runs of source texts lead to from the beginning, whatever way they end. -/
inductive World.Reached : World → Prop
  | initial {verbosity} : Reached (.initial verbosity)
  | run {world source program} (fuel : Nat) : Reached world → parseProgram source = .ok program →
      Reached (Scoped.behind (runProgram fuel program world))

theorem World.Reached.within {world : World} (h : world.Reached) :
    world.Within Scalar.IsUnscaled := by
  induction h with
  | initial => exact within_initial
  | @run world source program fuel _ hparse ih =>
    have hkeeps := keeps_runProgram Scalar.closed_isUnscaled (isProgram_of_parseProgram hparse) fuel
      world ih
    cases hresult : runProgram fuel program world with
    | ok value after =>
      rw [hresult] at hkeeps
      exact hkeeps.1
    | error failure after =>
      rw [hresult] at hkeeps
      exact hkeeps.1

end BlockScript

import BlockScript.Proofs.Scoped.Agreement
import BlockScript.Proofs.Shaped.Tree
import BlockScript.Proofs.Switch.InStep
import Mathlib
/-!
# Switches as chains of conditional statements

A switch can be written without one: a new block keeps the value that is switched on in a variable,
and conditional statements, each in the else part of the one before, compare the values of the cases
with it. The default case is what the last else part holds. If nobody else knows the variable, the
block does what the switch does.

The two need different amounts of fuel, and the block has more scopes. So the run of the switch and
the run of the block are followed side by side: the conditions are evaluated in step
(`Scoped.inStep_evaluate`), and so is the body that is chosen.

## Main definitions

* `Node.ifChain`, `Node.withoutSwitch` — the conditional statements, and the block
* `Scoped.Switching` — the state of the switch at its cases, beside that of the block in its chain
* `Scoped.ChainFuels`, `Scoped.SameBefore` — how much fuel the runs have, and what they leave behind

## Main results

* `Scoped.Switching.endsInStep_executeCases` — the cases
* `Scoped.switches_are_if_chains` — switches
-/

namespace BlockScript

namespace Node

/-- A conditional statement that compares the value of a case with a variable. -/
def ifEqual (name : String) (value : Node) (body rest : List Node) : Node :=
  .branch (.binary "==" value (.access name .null none none) none) body rest

/-- Conditional statements that compare the values of cases with a variable, each in the else part
of the one before. The body of the default case is the last else part. -/
def ifChain (name : String) : List Node → List Node
  | .case value body :: rest =>
    if value.isNull then body else [ifEqual name value body (ifChain name rest)]
  | _ => []

/-- The statements of a block that does what a switch does: the value that is switched on is kept in
a variable, and conditional statements choose the body. -/
def withoutSwitch (name : String) (condition : Node) (cases : List Node) : List Node :=
  .declaration name none condition none :: ifChain name cases

end Node

namespace Scoped

open BlockScript.Scoped.Run

/-! ### Steps of the two runs -/

section

variable {α : Type} {fuel : Nat} {place : Place} {name : String} {value : Node}
  {body : List Node} {chosen : Value} {σ τ : State}

/-- A note that is not kept changes nothing. -/
theorem lift_note_of_lt {level : Int} {text : World → String}
    (h : σ.world.transcript.verbosity < level) :
    lift (BlockScript.Run.note level text) σ = .ok () σ := by
  have hkeeps : σ.world.transcript.keeps level = false := by
    simp [Transcript.keeps, Int.not_le.mpr h]
  have hnote : (σ.world.transcript.note level fun _ => text σ.world) = σ.world.transcript := by
    simp [Transcript.note, hkeeps]
  change EStateM.Result.ok () { σ with world := { σ.world with
    transcript := σ.world.transcript.note level fun _ => text σ.world } } = _
  rw [hnote]

/-- Expressions leave the local scopes alone. -/
theorem changes_of_evaluate {node : Node} {found : Value}
    (h : evaluate fuel place node σ = .ok found τ) : Changes none [] σ τ := by
  have hquiet := quiet_evaluate fuel place node σ
  rwa [h] at hquiet

theorem verbosity_of_evaluate {node : Node} {found : Value}
    (h : evaluate fuel place node σ = .ok found τ) (hplace : σ.Has place) :
    τ.world.transcript.verbosity = σ.world.transcript.verbosity := by
  have hlogs := (logs_evaluate fuel place node σ hplace).1
  rw [h] at hlogs
  exact hlogs.verbosity_eq

/-- The value of a variable that is found in a local scope. -/
theorem evaluate_access {slot : Slot}
    (hfound : Chain.findVariable? (σ.locals place) name = some slot) :
    evaluate (fuel + 1) place (.access name .null none none) σ = .ok slot.value σ := by
  have hlookup : Chain.lookupVariable (σ.locals place ++ σ.world.outerChain) name = .ok slot := by
    rw [Chain.lookupVariable, Chain.findVariable?_append, hfound, Option.some_or]
  have hfind : findVariable place name σ = .ok slot σ := by
    rw [findVariable, get_bind_apply, hlookup]
    rfl
  rw [evaluate, bind_apply, hfind]
  rfl

theorem executeCases_default {rest : List Node} (hnull : value.isNull = true) :
    executeCases (fuel + 1) place chosen (.case value body :: rest) =
      inside place fun place => executeBlock fuel place body := by
  simp only [executeCases, Node.value?, hnull, if_true, pure_bind]

theorem executeCases_case {rest : List Node} (hnull : value.isNull = false) :
    executeCases (fuel + 1) place chosen (.case value body :: rest) = (do
      let found ← evaluate fuel place value
      let σ ← get
      if (σ.world.datum found).same (σ.world.datum chosen) then
        inside place fun place => executeBlock fuel place body
      else
        executeCases fuel place chosen rest) := by
  simp only [executeCases, Node.value?, hnull, Bool.false_eq_true, if_false, pure_bind]

/-- What a conditional statement of the chain does with the value of its case. -/
def compareCase (fuel : Nat) (place : Place) (name : String) (body rest : List Node)
    (found : Value) : Run (Option Value) := do
  let chosen ← evaluate fuel place (.access name .null none none)
  let outcome ← lift (applyToValues "==" found chosen)
  let holds ← lift (BlockScript.Run.requireBoolean outcome)
  lift (BlockScript.Run.note 3 fun _ => "if condition -> " ++ (Scalar.boolean holds).text)
  inside place fun place => executeBlock (fuel + 1) place (if holds then body else rest)

/-- The statements of the chain are one conditional statement. -/
theorem executeBlock_chain {rest : List Node} :
    executeBlock (fuel + 3) place [Node.ifEqual name value body rest] =
      evaluate fuel place value >>= compareCase fuel place name body rest := by
  have hblock : executeBlock (fuel + 3) place [Node.ifEqual name value body rest] =
      execute (fuel + 2) place (Node.ifEqual name value body rest) := by
    rw [executeBlock]
    refine (bind_congr fun outcome => ?_).trans (bind_pure _)
    cases outcome <;> rfl
  have hand : ("==" : String) ≠ "&&" := by decide
  have hor : ("==" : String) ≠ "||" := by decide
  rw [hblock, Node.ifEqual, execute, evaluate]
  simp only [if_neg hand, if_neg hor, bind_assoc]
  rfl

/-- The test of the value of a case, if the variable holds what is switched on. -/
theorem compareCase_apply {found : Value} {rest : List Node} {slot : Slot}
    (hfound : Chain.findVariable? (σ.locals place) name = some slot)
    (hverbosity : σ.world.transcript.verbosity < 3) :
    compareCase (fuel + 1) place name body rest found σ =
      if (σ.world.datum found).same (σ.world.datum slot.value) then
        inside place (fun place => executeBlock (fuel + 2) place body) σ
      else inside place (fun place => executeBlock (fuel + 2) place rest) σ := by
  have hvalue : evaluate (fuel + 1) place (.access name .null none none) σ = .ok slot.value σ :=
    evaluate_access hfound
  have houtcome : lift (applyToValues "==" found slot.value) σ =
      .ok (.scalar (.boolean ((σ.world.datum found).same (σ.world.datum slot.value)))) σ := rfl
  generalize (σ.world.datum found).same (σ.world.datum slot.value) = holds at houtcome ⊢
  have hholds : lift (BlockScript.Run.requireBoolean (.scalar (.boolean holds))) σ =
      .ok holds σ := rfl
  rw [compareCase, bind_apply, hvalue]
  simp only [bind_apply, houtcome, hholds, lift_note_of_lt hverbosity]
  cases holds <;> rfl

theorem logs_compareCase {rest : List Node} (found : Value) :
    Logs place (compareCase fuel place name body rest found) := by
  apply logs_bind (logs_evaluate fuel place _)
  intro chosen
  apply logs_bind (logs_lift (BlockScript.Run.writing_applyToValues "==" found chosen))
  intro outcome
  apply logs_bind (logs_lift (BlockScript.Run.writing_requireBoolean outcome))
  intro holds
  apply logs_bind (logs_lift (BlockScript.Run.writing_note 3 _))
  intro _
  exact logs_inside (fun inner => grows_executeBlock (fuel + 1) inner _)
    fun id => logs_executeBlock (fuel + 1) (some id) _

/-- Some fuel is needed to get to the value of the first case. -/
theorem executeBlock_chain_eq_throw {rest : List Node} (h : fuel ≤ 2) :
    executeBlock fuel place [Node.ifEqual name value body rest] = throw .outOfFuel := by
  obtain rfl | rfl | rfl : fuel = 0 ∨ fuel = 1 ∨ fuel = 2 := by omega
  · rfl
  · rfl
  · rfl

/-- What the block does with the value that is switched on. -/
def enterChain (fuel : Nat) (place : Place) (name : String) (cases : List Node) (chosen : Value) :
    Run (Option Value) := do
  define place name { value := chosen, mutable := true }
  lift (BlockScript.Run.note 2 fun world => "declare " ++ name ++ " = " ++ world.textOf chosen)
  executeBlock (fuel + 1) place (Node.ifChain name cases)

theorem logs_enterChain {cases : List Node} (chosen : Value) :
    Logs place (enterChain fuel place name cases chosen) := by
  apply logs_bind (logs_define name rfl)
  intro _
  apply logs_bind (logs_lift (BlockScript.Run.writing_note 2 _))
  intro _
  exact logs_executeBlock (fuel + 1) place _

theorem executeBlock_withoutSwitch {condition : Node} {cases : List Node}
    (hnull : condition.isNull = false) :
    executeBlock (fuel + 2) place (Node.withoutSwitch name condition cases) =
      evaluate fuel place condition >>= enterChain fuel place name cases := by
  rw [Node.withoutSwitch, executeBlock, execute]
  simp only [hnull, Bool.false_eq_true, if_false, bind_assoc, pure_bind]
  rfl

/-- The scope of the block, with the value that is switched on. -/
def chosenFrame (name : String) (chosen : Value) : DynamicFrame :=
  { vars := [(name, { value := chosen, mutable := true })] }

/-- The value goes into a scope that is empty. -/
theorem enterChain_apply {cases : List Node} (hempty : σ.frame place = {})
    (hverbosity : σ.world.transcript.verbosity < 2) :
    enterChain fuel place name cases chosen σ =
      executeBlock (fuel + 1) place (Node.ifChain name cases)
        (σ.setFrame place (chosenFrame name chosen)) := by
  have hdefine : define place name { value := chosen, mutable := true } σ =
      .ok () (σ.setFrame place (chosenFrame name chosen)) := by
    rw [define_apply, hempty]
    rfl
  have hbehind : (σ.setFrame place (chosenFrame name chosen)).world.transcript.verbosity < 2 := by
    rwa [State.transcript_setFrame]
  rw [enterChain, bind_apply, hdefine]
  simp only [bind_apply, lift_note_of_lt hbehind]

end

/-! ### Fuel -/

/-- Amounts of fuel for the cases of a switch and for their chain, which takes two steps where the
cases take one. -/
structure ChainFuels (first : Bool) (fuel fuel' : Nat) : Prop where
  lt : first = true → 2 * fuel < fuel'
  lt' : first = false → fuel' < fuel

namespace ChainFuels

variable {first : Bool} {fuel fuel' : Nat}

theorem eq_true (h : ChainFuels first 0 fuel') : first = true := by
  cases first with
  | true => rfl
  | false => exact absurd (h.lt' rfl) (Nat.not_lt_zero _)

theorem eq_false (h : ChainFuels first (fuel + 1) fuel') (hsmall : fuel' ≤ 2) :
    first = false := by
  cases first with
  | false => rfl
  | true =>
    have := h.lt rfl
    omega

/-- The fuel that is left for the parts of a case, in both runs. -/
theorem fuels (h : ChainFuels first (fuel + 1) fuel') {left : Nat} (hle : left ≤ fuel')
    (hlow : fuel' ≤ left + 3) : Fuels first fuel left := by
  refine ⟨fun hfirst => ?_, fun hfirst => ?_⟩
  · have := h.lt hfirst
    omega
  · have := h.lt' hfirst
    omega

/-- The fuel that is left for the other cases, in both runs. -/
theorem rest (h : ChainFuels first (fuel + 1) fuel') {left : Nat} (hlt : left < fuel')
    (hlow : fuel' ≤ left + 2) : ChainFuels first fuel left := by
  refine ⟨fun hfirst => ?_, fun hfirst => ?_⟩
  · have := h.lt hfirst
    omega
  · have := h.lt' hfirst
    omega

end ChainFuels

/-! ### The cases -/

/-- Two states have the same top frame, lists and output, and the same scopes of those that were
there from the beginning. -/
structure SameBefore (count : Nat) (σ σ' : State) : Prop where
  world_eq : σ'.world = σ.world
  frame_eq : ∀ id < count, σ'.scopes.frame id = σ.scopes.frame id

theorem Twins.sameBefore {hidden : String → Prop} {count : Nat} {links : List (Option Nat × Nat)}
    {place place' : Place} {σ σ' : State} (h : Twins hidden count links place place' σ σ') :
    SameBefore count σ σ' :=
  ⟨h.world_eq, h.old⟩

/-- The run of a switch is at its cases, and the run of the block in a scope of its chain, which has
no counterpart and knows what is switched on. -/
structure Switching (name : String) (chosen : Value) (count : Nat)
    (links : List (Option Nat × Nat)) (place : Place) (id : Nat) (σ σ' : State) : Prop where
  twins : Twins (· = name) count ((none, id) :: links) place (some id) σ σ'
  found : Chain.findVariable? (σ'.locals (some id)) name =
    some { value := chosen, mutable := true }
  verbosity : σ.world.transcript.verbosity < 2

section

variable {first : Bool} {name : String} {chosen : Value} {count fuel fuel' : Nat}
  {links : List (Option Nat × Nat)} {place : Place} {id : Nat} {σ σ' τ τ' : State}
  {value : Node} {body rest : List Node}

/-- The value of a case does not change what is switched on. -/
theorem Switching.evaluated (h : Switching name chosen count links place id σ σ') {found : Value}
    (hleft : evaluate fuel place value σ = .ok found τ)
    (hright : evaluate fuel' (some id) value σ' = .ok found τ')
    (hτ : Twins (· = name) count ((none, id) :: links) place (some id) τ τ') :
    Switching name chosen count links place id τ τ' where
  twins := hτ
  found := by
    rw [(changes_of_evaluate hright).locals_eq h.twins.has']
    exact h.found
  verbosity := (verbosity_of_evaluate hleft h.twins.has).trans_lt h.verbosity

/-- The else part is a scope of the chain as well. -/
theorem Switching.opened (h : Switching name chosen count links place id σ σ') :
    Switching name chosen count ((none, id) :: links) place σ'.next σ (σ'.opened (some id)) where
  twins := h.twins.openedExtra
  found := by
    rw [State.locals_opened_self h.twins.has']
    exact h.found
  verbosity := h.verbosity

/-- The block executes the body of the default case where it stands, the switch in a new scope. -/
theorem Switching.endsInStep_default (h : Switching name chosen count links place id σ σ')
    (hfuels : ChainFuels first (fuel + 1) fuel') (hnull : value.isNull = true)
    (hbody : AllAvoid (· = name) body) :
    EndsInStep first (SameBefore count)
      (executeCases (fuel + 1) place chosen (.case value body :: rest) σ)
      (executeBlock fuel' (some id) body σ') := by
  rw [executeCases_default hnull]
  have hfuel : Fuels first fuel fuel' := hfuels.fuels le_rfl (Nat.le_add_right _ _)
  exact ((inStep_executeBlock hfuel hbody).ends _ _ h.twins.openedLate).imp Twins.sameBefore

/-- With the value of a case at hand, both runs execute its body, or both go on with the others. -/
theorem Switching.endsInStep_compareCase (h : Switching name chosen count links place id σ σ')
    (hfuels : Fuels first fuel (fuel' + 2)) (hbody : AllAvoid (· = name) body) {found : Value}
    {chain : List Node}
    (hrest : EndsInStep first (SameBefore count) (executeCases fuel place chosen rest σ)
      (executeBlock (fuel' + 2) (some σ'.next) chain (σ'.opened (some id)))) :
    EndsInStep first (SameBefore count)
      ((if (σ.world.datum found).same (σ.world.datum chosen) then
          inside place fun place => executeBlock fuel place body
        else executeCases fuel place chosen rest : Run (Option Value)) σ)
      (compareCase (fuel' + 1) (some id) name body chain found σ') := by
  have hverbosity : σ'.world.transcript.verbosity < 3 := by
    have hlow := h.verbosity
    rw [h.twins.world_eq]
    omega
  rw [compareCase_apply h.found hverbosity, h.twins.world_eq]
  cases (σ.world.datum found).same (σ.world.datum chosen) with
  | true =>
    have hinside : InStep first (· = name) count ((none, id) :: links) place (some id)
        (inside place fun place => executeBlock fuel place body)
        (inside (some id) fun place => executeBlock (fuel' + 2) place body) := by
      apply inStep_inside (fun inner => grows_executeBlock fuel inner body)
        fun inner => grows_executeBlock (fuel' + 2) inner body
      intro _ _
      exact inStep_executeBlock hfuels hbody
    exact (hinside.ends σ σ' h.twins).imp Twins.sameBefore
  | false => exact hrest

/-- The first case of a switch and the first conditional statement of the chain end in step if the
others do. -/
theorem Switching.endsInStep_case (h : Switching name chosen count links place id σ σ')
    (hfuels : ChainFuels first (fuel + 1) fuel') (hnull : value.isNull = false)
    (hvalue : Avoids (· = name) value) (hbody : AllAvoid (· = name) body) {chain : List Node}
    (hrest : ∀ {fuel' links id σ σ'}, ChainFuels first fuel fuel' →
      Switching name chosen count links place id σ σ' →
      EndsInStep first (SameBefore count) (executeCases fuel place chosen rest σ)
        (executeBlock fuel' (some id) chain σ')) :
    EndsInStep first (SameBefore count)
      (executeCases (fuel + 1) place chosen (.case value body :: rest) σ)
      (executeBlock fuel' (some id) [Node.ifEqual name value body chain] σ') := by
  -- the block, the statement and the operator take one step each
  by_cases hsmall : fuel' ≤ 2
  · rw [executeBlock_chain_eq_throw hsmall]
    exact h.twins.short' (hfuels.eq_false hsmall) (logs_executeCases (fuel + 1) place chosen _)
  obtain ⟨fuel', rfl⟩ : ∃ n, fuel' = n + 3 := ⟨fuel' - 3, by omega⟩
  rw [executeCases_case hnull, executeBlock_chain]
  have hfuel : Fuels first fuel fuel' := hfuels.fuels (Nat.le_add_right _ _) le_rfl
  refine (inStep_evaluate hfuel hvalue).ends_bind h.twins
    (fun _ _ => Twins.sameBefore) ?_ logs_compareCase ?_
  · intro found
    apply logs_get
    intro τ
    apply logs_ite _ (logs_executeCases fuel place chosen rest)
    exact logs_inside (fun inner => grows_executeBlock fuel inner body)
      fun id => logs_executeBlock fuel (some id) body
  · intro found τ τ' hleft hright hτ
    have hbehind := h.evaluated hleft hright hτ
    -- the value took some fuel, which is enough to look the variable up
    cases fuel' with
    | zero => cases hright
    | succ fuel' =>
      exact hbehind.endsInStep_compareCase (hfuels.fuels (by omega) (by omega)) hbody
        (hrest (hfuels.rest (by omega) le_rfl) hbehind.opened)

/-- The cases of a switch and their chain end in step. -/
theorem Switching.endsInStep_executeCases {allowed : Scalar → Prop} :
    ∀ (cases : List Node) {fuel fuel' : Nat} {links : List (Option Nat × Nat)} {id : Nat}
      {σ σ' : State}, Switching name chosen count links place id σ σ' →
    (∀ node ∈ cases, Node.IsCase allowed node) → AllAvoid (· = name) cases →
    ChainFuels first fuel fuel' →
    EndsInStep first (SameBefore count) (executeCases fuel place chosen cases σ)
      (executeBlock fuel' (some id) (Node.ifChain name cases) σ')
  | cases, 0, fuel', _, id, _, _, h, _, _, hfuels =>
    h.twins.short hfuels.eq_true (logs_executeBlock fuel' (some id) (Node.ifChain name cases))
  | [], fuel + 1, 0, _, _, _, _, h, _, _, hfuels =>
    h.twins.short' (hfuels.eq_false (Nat.zero_le _)) (logs_executeCases (fuel + 1) place chosen [])
  | [], _ + 1, _ + 1, _, _, _, _, h, _, _, _ => .ok h.twins.sameBefore
  | node :: rest, fuel + 1, fuel', _, _, _, _, h, hcases, havoid, hfuels => by
    obtain ⟨hcase, hrestCases⟩ := List.forall_mem_cons.mp hcases
    obtain ⟨hnode, hrest⟩ := List.forall_mem_append.mp havoid
    cases hcase with
    | @mk value body _ _ =>
      obtain ⟨hvalue, hbody⟩ := List.forall_mem_append.mp hnode
      rw [Node.ifChain]
      -- the default case is the one without a value
      cases hnull : value.isNull with
      | true =>
        rw [if_pos rfl]
        exact h.endsInStep_default hfuels hnull hbody
      | false =>
        rw [if_neg Bool.false_ne_true]
        exact h.endsInStep_case hfuels hnull hvalue hbody fun hfuels h =>
          h.endsInStep_executeCases rest hrestCases hrest hfuels

end

/-! ### Switches -/

/-- Some fuel is needed to get to the value that is switched on. -/
theorem executeBlock_withoutSwitch_eq_throw {name : String} {fuel : Nat} {place : Place}
    {condition : Node} {cases : List Node} (h : fuel ≤ 1) :
    executeBlock fuel place (Node.withoutSwitch name condition cases) = throw .outOfFuel := by
  obtain rfl | rfl : fuel = 0 ∨ fuel = 1 := by omega
  · rfl
  · rfl

section

variable {allowed : Scalar → Prop} {first : Bool} {name : String} {count fuel fuel' id : Nat}
  {links : List (Option Nat × Nat)} {place : Place} {condition : Node} {cases : List Node}
  {chosen : Value} {σ σ' τ τ' : State}

/-- When the block has the value that is switched on, its run stands in the chain. -/
theorem Twins.switching (h : Twins (· = name) count ((none, id) :: links) place (some id) σ σ')
    (hverbosity : σ.world.transcript.verbosity < 2) :
    Switching name chosen count links place id σ
      (σ'.setFrame (some id) (chosenFrame name chosen)) where
  twins := by
    apply h.setExtra List.mem_cons_self
    exact ⟨rfl, _, (List.append_nil _).symm, List.forall_mem_singleton.mpr rfl⟩
  found := by
    have hframe : (σ'.setFrame (some id) (chosenFrame name chosen)).scopes.frame id =
        chosenFrame name chosen :=
      Store.frame_setFrame_self h.has'
    have hself : (chosenFrame name chosen).findVariable? name =
        some { value := chosen, mutable := true } :=
      List.lookup_cons_self
    rw [State.locals_eq_map_ids, State.ids_setFrame, h.ids_eq', List.map_cons, List.map_cons,
      Chain.findVariable?_cons, hframe, hself, Option.some_or]
  verbosity := hverbosity

/-- With the value that is switched on at hand, both runs go on to the cases. -/
theorem Twins.endsInStep_enterChain
    (h : Twins (· = name) count ((none, id) :: links) place (some id) τ τ')
    (hempty : τ'.frame (some id) = {}) (hverbosity : τ.world.transcript.verbosity < 2)
    (hcases : ∀ node ∈ cases, Node.IsCase allowed node) (havoid : AllAvoid (· = name) cases)
    (hfuels : ChainFuels first fuel (fuel' + 1)) :
    EndsInStep first (SameBefore count) (executeCases fuel place chosen cases τ)
      (enterChain fuel' (some id) name cases chosen τ') := by
  have hverbosity' : τ'.world.transcript.verbosity < 2 := by rwa [h.world_eq]
  rw [enterChain_apply hempty hverbosity']
  exact (h.switching hverbosity).endsInStep_executeCases cases hcases havoid hfuels

/-- A switch and its block end in step. -/
theorem endsInStep_switch (hcondition : Node.IsExpression allowed condition)
    (hcases : ∀ node ∈ cases, Node.IsCase allowed node)
    (havoid : Avoids (· = name) (.switch condition cases)) (hplace : σ.Has place)
    (hverbosity : σ.world.transcript.verbosity < 2) (hfuels : ChainFuels first fuel fuel') :
    EndsInStep first (SameBefore σ.next) (execute fuel place (.switch condition cases) σ)
      (inside place (fun inner =>
        executeBlock fuel' inner (Node.withoutSwitch name condition cases)) σ) := by
  obtain ⟨hwhat, hwhich⟩ := List.forall_mem_append.mp havoid
  have hself : Twins (· = name) σ.next _ place place σ σ := .refl hplace
  have hblock := hself.openedExtra
  change EndsInStep first _ _ (executeBlock fuel' (some σ.next)
    (Node.withoutSwitch name condition cases) (σ.opened place))
  cases fuel with
  | zero => exact hblock.short hfuels.eq_true (logs_executeBlock fuel' _ _)
  | succ fuel =>
    by_cases hsmall : fuel' ≤ 1
    · rw [executeBlock_withoutSwitch_eq_throw hsmall]
      exact hblock.short' (hfuels.eq_false (by omega)) (logs_execute (fuel + 1) place _)
    obtain ⟨fuel', rfl⟩ : ∃ n, fuel' = n + 2 := ⟨fuel' - 2, by omega⟩
    rw [executeBlock_withoutSwitch hcondition.isNull_eq]
    have hfuel : Fuels first fuel fuel' := hfuels.fuels (Nat.le_add_right _ _) (by omega)
    refine (inStep_evaluate hfuel hwhat).ends_bind hblock
      (fun _ _ => Twins.sameBefore) (logs_executeCases fuel place · cases) logs_enterChain ?_
    intro chosen τ τ' hleft hright hτ
    -- evaluating the condition has left the new scope empty
    have hempty : τ'.frame (some σ.next) = {} := by
      have hchanges := changes_of_evaluate hright
      rw [hchanges.elsewhere (some σ.next) State.has_opened_self (by simp [State.path])]
      exact State.frame_opened_self
    have hlow := (verbosity_of_evaluate hleft hplace).trans_lt hverbosity
    exact hτ.endsInStep_enterChain hempty hlow hcases hwhich (hfuels.rest (by omega) (by omega))

end

/-- What is switched on in a program. -/
def sampleCondition : Node :=
  .binary "+" (.literal (.integer 1) none) (.literal (.integer 1) none) none

/-- The cases of the program, of which the second one is chosen. -/
def sampleCases : List Node :=
  let print (text : String) : Node :=
    .discard (.call "print" [.literal (.string text) none] none none)
  [.case (.literal (.integer 1) none) [print "one"],
    .case (.literal (.integer 2) none) [print "two"], .case .null [print "many"]]

theorem parseProgram_sampleCases :
    parseProgram ("FUN main() DO SWITCH 1 + 1 CASE 1: print(\"one\"); CASE 2: print(\"two\"); "
        ++ "DEFAULT: print(\"many\"); END END") =
      .ok (.program []
        [.function "main" [] [] none [.switch sampleCondition sampleCases] none]) := by
  cbv

theorem isStatement_sampleCases :
    Node.IsStatement Scalar.IsUnscaled (.switch sampleCondition sampleCases) := by
  cases isProgram_of_parseProgram parseProgram_sampleCases with
  | mk _ hfunctions =>
    cases hfunctions _ List.mem_cons_self with
    | mk hbody => exact hbody _ List.mem_cons_self

end Scoped

end BlockScript

import BlockScript.Proofs.Renaming.Tree
import BlockScript.Proofs.Scoped.Output
import BlockScript.Proofs.Switch.Twins
/-!
# Runs side by side

A run in a state with more scopes (`BlockScript.Proofs.Switch.Twins`) does what the run does: the
same values, failures and output, and the states behind them belong together again. The two runs may
have different amounts of fuel. If one of them is short of fuel, it has put out a beginning of what
the other one puts out; otherwise they have the same result.

Hidden variables are no obstacle as long as the tree that is run does not mention them. A function
that is called may mention any name, but it sees none of the local scopes.

## Main definitions

* `Scoped.Fuels` — amounts of fuel for two runs, one of which may be short of it
* `Scoped.EndsInStep` — how two runs end
* `Scoped.InStep` — computations that end alike in states that belong together

## Main results

* `Scoped.InStep.bind`, `Scoped.inStep_lift`, `Scoped.inStep_inside` — how such computations are
  made
* `Scoped.inStep_evaluate`, `Scoped.inStep_executeBlock` — expressions and statements
-/

namespace BlockScript

namespace Scoped

open BlockScript.Scoped.Run
open BlockScript.Run (Writing)

variable {α β : Type} {first : Bool}

/-! ### How two runs end -/

/-- Amounts of fuel for two runs. The first run has no more than the second, or the second no more
than the first. -/
structure Fuels (first : Bool) (fuel fuel' : Nat) : Prop where
  le : first = true → fuel ≤ fuel'
  le' : first = false → fuel' ≤ fuel

theorem Fuels.pred {fuel fuel' : Nat} (h : Fuels first (fuel + 1) (fuel' + 1)) :
    Fuels first fuel fuel' :=
  ⟨fun hfirst => Nat.le_of_succ_le_succ (h.le hfirst),
    fun hfirst => Nat.le_of_succ_le_succ (h.le' hfirst)⟩

/-- Two runs end with the same value or failure and in states that belong together, or the run that
may be short of fuel has put out a beginning of what the other one has. -/
inductive EndsInStep (first : Bool) (R : State → State → Prop) :
    EStateM.Result Failure State α → EStateM.Result Failure State α → Prop
  | ok {a τ τ'} : R τ τ' → EndsInStep first R (.ok a τ) (.ok a τ')
  | error {failure τ τ'} : R τ τ' → EndsInStep first R (.error failure τ) (.error failure τ')
  | short {τ result'} : first = true → τ.events <+: (behind result').events →
      EndsInStep first R (.error .outOfFuel τ) result'
  | short' {result τ'} : first = false → τ'.events <+: (behind result).events →
      EndsInStep first R result (.error .outOfFuel τ')

theorem EndsInStep.imp {R S : State → State → Prop}
    {result result' : EStateM.Result Failure State α} (h : EndsInStep first R result result')
    (himp : R (behind result) (behind result') → S (behind result) (behind result')) :
    EndsInStep first S result result' := by
  cases h with
  | ok h => exact .ok (himp h)
  | error h => exact .error (himp h)
  | short hfirst hevents => exact .short hfirst hevents
  | short' hfirst hevents => exact .short' hfirst hevents

/-- What comes next leaves what was put out. -/
theorem events_prefix_bind {place : Place} {x : Run α} {k : α → Run β} (hx : Logs place x)
    (hk : ∀ a, Logs place (k a)) {σ : State} (hplace : σ.Has place) :
    (behind (x σ)).events <+: (behind ((x >>= k) σ)).events := by
  have hbehind := (hx σ hplace).2
  rw [behind_bind]
  cases h : x σ with
  | ok a after =>
    rw [h] at hbehind
    exact (hk a).events hbehind
  | error failure after => exact List.prefix_refl _

/-- Computations that end alike in states that belong together. -/
structure InStep (first : Bool) (hidden : String → Prop) (count : Nat)
    (links : List (Option Nat × Nat)) (place place' : Place) (x x' : Run α) : Prop where
  logs : Logs place x
  logs' : Logs place' x'
  ends : ∀ σ σ', Twins hidden count links place place' σ σ' →
    EndsInStep first (Twins hidden count links place place') (x σ) (x' σ')

section

variable {hidden : String → Prop} {count : Nat} {links : List (Option Nat × Nat)}
  {place place' : Place}

theorem inStep_pure (a : α) : InStep first hidden count links place place' (pure a) (pure a) :=
  ⟨logs_pure a, logs_pure a, fun _ _ h => .ok h⟩

theorem inStep_throw (failure : Failure) :
    InStep first hidden count links place place' (throw failure : Run α) (throw failure) :=
  ⟨logs_throw failure, logs_throw failure, fun _ _ h => .error h⟩

/-- Computations in a row end alike if the second ones do behind the first ones. -/
theorem InStep.ends_bind {R : State → State → Prop} {x x' : Run α} {k k' : α → Run β}
    (hx : InStep first hidden count links place place' x x') {σ σ' : State}
    (h : Twins hidden count links place place' σ σ')
    (himp : ∀ τ τ', Twins hidden count links place place' τ τ' → R τ τ')
    (hk : ∀ a, Logs place (k a)) (hk' : ∀ a, Logs place' (k' a))
    (hnext : ∀ a τ τ', x σ = .ok a τ → x' σ' = .ok a τ' →
      Twins hidden count links place place' τ τ' → EndsInStep first R (k a τ) (k' a τ')) :
    EndsInStep first R ((x >>= k) σ) ((x' >>= k') σ') := by
  have hends := hx.ends σ σ' h
  have hbehind := events_prefix_bind hx.logs hk h.has
  have hbehind' := events_prefix_bind hx.logs' hk' h.has'
  rw [bind_apply] at hbehind hbehind' ⊢
  rw [bind_apply]
  generalize hresult : x σ = result at hends hbehind
  generalize hresult' : x' σ' = result' at hends hbehind'
  cases hends with
  | ok h => exact hnext _ _ _ hresult hresult' h
  | error h => exact .error (himp _ _ h)
  | short hfirst hevents => exact .short hfirst (hevents.trans hbehind')
  | short' hfirst hevents => exact .short' hfirst (hevents.trans hbehind)

theorem InStep.bind {x x' : Run α} {k k' : α → Run β}
    (hx : InStep first hidden count links place place' x x')
    (hk : ∀ a, InStep first hidden count links place place' (k a) (k' a)) :
    InStep first hidden count links place place' (x >>= k) (x' >>= k') where
  logs := logs_bind hx.logs fun a => (hk a).logs
  logs' := logs_bind hx.logs' fun a => (hk a).logs'
  ends _ _ h := hx.ends_bind h (fun _ _ h => h) (fun a => (hk a).logs) (fun a => (hk a).logs')
    fun a τ τ' _ _ h => (hk a).ends τ τ' h

theorem inStep_ite {p : Prop} [Decidable p] {x x' y y' : Run α}
    (hx : InStep first hidden count links place place' x x')
    (hy : InStep first hidden count links place place' y y') :
    InStep first hidden count links place place' (if p then x else y)
      (if p then x' else y') := by
  by_cases hp : p
  · rwa [if_pos hp, if_pos hp]
  · rwa [if_neg hp, if_neg hp]

end

/-! ### Single steps -/

section

variable {hidden : String → Prop} {count : Nat} {links : List (Option Nat × Nat)}
  {place place' : Place} {name : String} {id id' : Nat}

theorem Twins.events_eq {σ σ' : State} (h : Twins hidden count links place place' σ σ') :
    σ'.events = σ.events :=
  congrArg (fun world => world.transcript.events) h.world_eq

/-- The first run has no fuel. -/
theorem Twins.short {R : State → State → Prop} {σ σ' : State} {x' : Run α}
    (h : Twins hidden count links place place' σ σ') (hfirst : first = true)
    (hlogs : Logs place' x') : EndsInStep first R ((throw .outOfFuel : Run α) σ) (x' σ') :=
  .short hfirst (h.events_eq ▸ hlogs.events h.has')

/-- The second run has no fuel. -/
theorem Twins.short' {R : State → State → Prop} {σ σ' : State} {x : Run α}
    (h : Twins hidden count links place place' σ σ') (hfirst : first = false)
    (hlogs : Logs place x) : EndsInStep first R (x σ) ((throw .outOfFuel : Run α) σ') := by
  have hevents : σ'.events <+: (behind (x σ)).events := h.events_eq ▸ hlogs.events h.has
  exact .short' hfirst hevents

theorem inStep_exhausted {r : Nat → Run α} {fuel' : Nat} (hfuels : Fuels first 0 fuel')
    (hzero : r 0 = throw .outOfFuel) (hlogs : Logs place' (r fuel')) :
    InStep first hidden count links place place' (throw .outOfFuel) (r fuel') := by
  refine ⟨logs_throw _, hlogs, fun σ σ' h => ?_⟩
  cases hfirst : first with
  | true => exact h.short rfl hlogs
  | false =>
    -- the second run has no fuel either
    obtain rfl := Nat.le_zero.mp (hfuels.le' hfirst)
    rw [hzero]
    exact .error h

theorem inStep_exhausted' {fuel : Nat} {x : Run α} (hfuels : Fuels first (fuel + 1) 0)
    (hlogs : Logs place x) :
    InStep first hidden count links place place' x (throw .outOfFuel) := by
  refine ⟨hlogs, logs_throw _, fun σ σ' h => ?_⟩
  cases hfirst : first with
  | true => exact absurd (hfuels.le hfirst) (Nat.not_succ_le_zero fuel)
  | false => exact h.short' rfl hlogs

theorem inStep_lift {x : BlockScript.Run α} (hx : Writing x) :
    InStep first hidden count links place place' (lift x) (lift x) := by
  refine ⟨logs_lift hx, logs_lift hx, fun σ σ' h => ?_⟩
  unfold lift
  rw [h.world_eq]
  cases x σ.world with
  | ok a world => exact .ok (h.withWorld world)
  | error failure world => exact .error (h.withWorld world)

theorem inStep_refuse (error : EvaluationError) :
    InStep first hidden count links place place'
      (lift (BlockScript.Run.refuse error : BlockScript.Run α))
      (lift (BlockScript.Run.refuse error)) :=
  inStep_lift (BlockScript.Run.writing_throw _)

theorem inStep_findVariable (hname : ¬hidden name) :
    InStep first hidden count links place place' (findVariable place name)
      (findVariable place' name) := by
  refine ⟨logs_findVariable name, logs_findVariable name, fun σ σ' h => ?_⟩
  rw [findVariable, findVariable, get_bind_apply, get_bind_apply, h.lookupVariable_eq hname]
  exact (inStep_lift (BlockScript.Run.writing_ofScope _)).ends σ σ' h

theorem inStep_findFunction (arity : Nat) :
    InStep first hidden count links place place' (findFunction place name arity)
      (findFunction place' name arity) := by
  refine ⟨logs_findFunction name arity, logs_findFunction name arity, fun σ σ' h => ?_⟩
  rw [findFunction, findFunction, get_bind_apply, get_bind_apply, h.lookupFunction_eq]
  exact (inStep_lift (BlockScript.Run.writing_ofScope _)).ends σ σ' h

/-- Definitions go into scopes that are linked. -/
theorem inStep_define (hname : ¬hidden name) {slot : Slot} (hslot : slot.mutable = true) :
    InStep first hidden count ((some id, id') :: links) (some id) (some id')
      (define (some id) name slot) (define (some id') name slot) := by
  refine ⟨logs_define name hslot, logs_define name hslot, fun σ σ' h => ?_⟩
  have hlink := h.linked _ List.mem_cons_self
  have hframe : FrameTwin hidden (σ.frame (some id)) (σ'.frame (some id')) :=
    hlink.frameTwin h.old
  rw [define_apply, define_apply]
  rcases hframe.defineVariable hname slot with
    ⟨after, after', hafter, hafter', hboth⟩ | ⟨e, he, he'⟩
  · rw [hafter, hafter']
    refine .ok (h.setFrame List.mem_cons_self hboth fun hlt => ?_)
    -- a scope from the beginning has the same frame in both states, so the new frames are the same
    cases hlink with
    | old _ =>
      have hsame : σ'.frame (some id) = σ.frame (some id) := h.old id hlt
      rw [hsame, hafter] at hafter'
      exact (Except.ok.inj hafter').symm
    | new hnew _ _ => exact absurd hlt (Nat.not_lt.mpr hnew)
  · rw [he, he']
    exact .error h

theorem inStep_assign (hname : ¬hidden name) (value : Value) :
    InStep first hidden count links place place' (assign place name value)
      (assign place' name value) :=
  ⟨logs_assign name value, logs_assign name value, fun _ _ h => .ok (h.assign hname value)⟩

/-- Parameters have any names where nothing is hidden. -/
theorem inStep_bindParameters (parameters : List String) : ∀ arguments : List Value,
    InStep first (fun _ => False) count [(some id, id')] (some id) (some id')
      (bindParameters (some id) parameters arguments)
      (bindParameters (some id') parameters arguments) := by
  induction parameters with
  | nil => exact fun _ => inStep_pure ()
  | cons parameter parameters ih =>
    intro arguments
    cases arguments with
    | nil => exact inStep_pure ()
    | cons argument arguments => exact (inStep_define not_false rfl).bind fun _ => ih arguments

/-! ### New scopes -/

section

variable {block block' : Place → Run α} (hgrows : ∀ inner, Grows inner (block inner))
  (hgrows' : ∀ inner, Grows inner (block' inner))

include hgrows hgrows'

theorem inStep_inside
    (h : ∀ id id', InStep first hidden count ((some id, id') :: links) (some id) (some id')
      (block (some id)) (block' (some id'))) :
    InStep first hidden count links place place' (inside place block)
      (inside place' block') := by
  refine ⟨logs_inside hgrows fun id => (h id 0).logs,
    logs_inside hgrows' fun id' => (h 0 id').logs', fun σ σ' hσ => ?_⟩
  obtain ⟨names, hchanges⟩ := hgrows (some σ.next) (σ.opened place) State.has_opened_self
  obtain ⟨names', hchanges'⟩ := hgrows' (some σ'.next) (σ'.opened place') State.has_opened_self
  exact ((h _ _).ends _ _ hσ.opened).imp
    fun hinner => hσ.leave (hchanges.leave hσ.has) (hchanges'.leave hσ.has') hinner

/-- What is done in new scopes directly inside the top scope sees no hidden variables. -/
theorem inStep_inside_none
    (h : ∀ id id', InStep first (fun _ => False) count [(some id, id')] (some id) (some id')
      (block (some id)) (block' (some id'))) :
    InStep first hidden count links place place' (inside none block)
      (inside none block') := by
  have halone : InStep first (fun _ => False) count [] none none (inside none block)
      (inside none block') := inStep_inside hgrows hgrows' h
  refine ⟨halone.logs.of_quiet (quiet_inside hgrows),
    halone.logs'.of_quiet (quiet_inside hgrows'), fun σ σ' hσ => ?_⟩
  exact (halone.ends σ σ' hσ.alone).imp fun hbehind =>
    hσ.back (quiet_inside hgrows σ) (quiet_inside hgrows' σ') hbehind.world_eq

end

/-! ### Expressions and statements -/

/-- A tree mentions no hidden variable. -/
def Avoids (hidden : String → Prop) (node : Node) : Prop :=
  ∀ name ∈ node.variableNames, ¬hidden name

/-- Several trees mention no hidden variable. -/
def AllAvoid (hidden : String → Prop) (nodes : List Node) : Prop :=
  ∀ name ∈ Node.variableNamesInAll nodes, ¬hidden name

/-- Expressions without hidden variables are evaluated alike with some fuel. -/
def EvaluatesInStep (first : Bool) (count fuel fuel' : Nat) : Prop :=
  ∀ {hidden : String → Prop} {links : List (Option Nat × Nat)} {place place' : Place}
    {node : Node}, Avoids hidden node →
    InStep first hidden count links place place' (evaluate fuel place node)
      (evaluate fuel' place' node)

section

variable {fuel fuel' : Nat} (hevaluate : EvaluatesInStep first count fuel fuel')

include hevaluate

theorem inStep_condition {condition : Node} {next next' : Bool → Run α}
    (hcondition : Avoids hidden condition)
    (hnext : ∀ holds, InStep first hidden count links place place' (next holds)
      (next' holds)) :
    InStep first hidden count links place place'
      (do
        let chosen ← evaluate fuel place condition
        next (← lift (BlockScript.Run.requireBoolean chosen)))
      (do
        let chosen ← evaluate fuel' place' condition
        next' (← lift (BlockScript.Run.requireBoolean chosen))) := by
  apply (hevaluate hcondition).bind
  intro chosen
  exact (inStep_lift (BlockScript.Run.writing_requireBoolean chosen)).bind hnext

theorem inStep_index {slot : Slot} {offset : Node} {next next' : Nat → Nat → Run α}
    (hoffset : Avoids hidden offset)
    (hnext : ∀ handle index, InStep first hidden count links place place'
      (next handle index) (next' handle index)) :
    InStep first hidden count links place place'
      (do
        let handle ← lift (BlockScript.Run.requireList name slot)
        let position ← evaluate fuel place offset
        let index ← lift (BlockScript.Run.requireOffset handle position)
        next handle index)
      (do
        let handle ← lift (BlockScript.Run.requireList name slot)
        let position ← evaluate fuel' place' offset
        let index ← lift (BlockScript.Run.requireOffset handle position)
        next' handle index) := by
  apply (inStep_lift (BlockScript.Run.writing_requireList name slot)).bind
  intro handle
  apply (hevaluate hoffset).bind
  intro position
  exact (inStep_lift (BlockScript.Run.writing_requireOffset handle position)).bind (hnext handle)

theorem inStep_binary {symbol : String} {left right : Node} {type : Option Ty}
    (hleft : Avoids hidden left) (hright : Avoids hidden right) :
    InStep first hidden count links place place'
      (evaluate (fuel + 1) place (.binary symbol left right type))
      (evaluate (fuel' + 1) place' (.binary symbol left right type)) := by
  have hsecond : InStep first hidden count links place place'
      (do
        let second ← evaluate fuel place right
        return Value.scalar (.boolean (← lift (BlockScript.Run.requireBoolean second))))
      (do
        let second ← evaluate fuel' place' right
        return Value.scalar (.boolean (← lift (BlockScript.Run.requireBoolean second)))) :=
    inStep_condition hevaluate hright fun _ => inStep_pure _
  apply (hevaluate hleft).bind
  intro value
  have hholds : InStep first hidden count links place place'
      (lift (BlockScript.Run.requireBoolean value)) (lift (BlockScript.Run.requireBoolean value)) :=
    inStep_lift (BlockScript.Run.writing_requireBoolean value)
  apply inStep_ite
  · exact hholds.bind fun _ => inStep_ite hsecond (inStep_pure _)
  apply inStep_ite
  · exact hholds.bind fun _ => inStep_ite (inStep_pure _) hsecond
  -- any other operator
  apply (hevaluate hright).bind
  intro value'
  exact inStep_lift (BlockScript.Run.writing_applyToValues symbol value value')

theorem inStep_assignment {receiver value : Node} (hreceiver : Avoids hidden receiver)
    (hvalue : Avoids hidden value) :
    InStep first hidden count links place place'
      (execute (fuel + 1) place (.assignment receiver value))
      (execute (fuel' + 1) place' (.assignment receiver value)) := by
  apply (hevaluate hvalue).bind
  intro result
  cases receiver with
  | access name offset _ _ =>
    obtain ⟨hname, hoffset⟩ := List.forall_mem_cons.mp hreceiver
    apply (inStep_findVariable hname).bind
    intro slot
    apply inStep_ite
    · apply inStep_ite _ (inStep_refuse _)
      exact (inStep_assign hname result).bind fun _ => inStep_pure _
    · apply inStep_index hevaluate hoffset
      intro handle index
      exact (inStep_lift (BlockScript.Run.writing_writeItem handle index result)).bind
        fun _ => inStep_pure _
  | _ => exact inStep_refuse _

theorem inStep_declaration {typeName : Option String} {value : Node} {binding : Option Binding}
    (hname : ¬hidden name) (hvalue : Avoids hidden value) :
    InStep first hidden count ((some id, id') :: links) (some id) (some id')
      (execute (fuel + 1) (some id) (.declaration name typeName value binding))
      (execute (fuel' + 1) (some id') (.declaration name typeName value binding)) := by
  have hdefine : ∀ initial,
      InStep first hidden count ((some id, id') :: links) (some id) (some id')
        (do
          define (some id) name { value := initial, mutable := true }
          lift (BlockScript.Run.note 2 fun world =>
            "declare " ++ name ++ " = " ++ world.textOf initial)
          return (none : Option Value))
        (do
          define (some id') name { value := initial, mutable := true }
          lift (BlockScript.Run.note 2 fun world =>
            "declare " ++ name ++ " = " ++ world.textOf initial)
          return none) := by
    intro initial
    apply (inStep_define hname rfl).bind
    intro _
    exact (inStep_lift (BlockScript.Run.writing_note 2 _)).bind fun _ => inStep_pure _
  exact inStep_ite (hdefine _) ((hevaluate hvalue).bind hdefine)

theorem inStep_matched {value : Node} {chosen : Value} {next next' : Bool → Run α}
    (hvalue : Avoids hidden value)
    (hnext : ∀ matched, InStep first hidden count links place place' (next matched)
      (next' matched)) :
    InStep first hidden count links place place'
      (do
        let matched ← if value.isNull then pure true else do
          let found ← evaluate fuel place value
          let σ ← get
          pure ((σ.world.datum found).same (σ.world.datum chosen))
        next matched)
      (do
        let matched ← if value.isNull then pure true else do
          let found ← evaluate fuel' place' value
          let σ ← get
          pure ((σ.world.datum found).same (σ.world.datum chosen))
        next' matched) := by
  apply inStep_ite (hnext true)
  apply (hevaluate hvalue).bind
  intro found
  refine ⟨logs_get fun _ => (hnext _).logs, logs_get fun _ => (hnext _).logs', fun σ σ' h => ?_⟩
  -- what the values show does not depend on the scopes
  have hworld := h.world_eq
  rw [get_bind_apply, get_bind_apply, hworld]
  exact (hnext _).ends σ σ' h

end

/-- The value that a case is compared with is a part of it. -/
theorem Avoids.value? {node value : Node} (h : Avoids hidden node)
    (hvalue : node.value? = some value) : Avoids hidden value := by
  cases node with
  | case found _ =>
    cases hvalue
    exact (List.forall_mem_append.mp h).1
  | declaration | global =>
    cases hvalue
    exact (List.forall_mem_cons.mp h).2
  | assignment =>
    cases hvalue
    exact (List.forall_mem_append.mp h).2
  | ret =>
    cases hvalue
    exact h
  | _ => cases hvalue

mutual

theorem inStep_evaluate : ∀ {fuel fuel' : Nat} {hidden : String → Prop}
    {links : List (Option Nat × Nat)} {place place' : Place} {node : Node},
    Fuels first fuel fuel' → Avoids hidden node →
    InStep first hidden count links place place' (evaluate fuel place node)
      (evaluate fuel' place' node)
  | 0, _, _, _, _, place', node, hfuels, _ =>
    inStep_exhausted (r := fun fuel => evaluate fuel place' node) hfuels rfl (logs_evaluate _ _ _)
  | fuel + 1, 0, _, _, _, _, _, hfuels, _ => inStep_exhausted' hfuels (logs_evaluate _ _ _)
  | fuel + 1, fuel' + 1, _, _, place, place', node, hfuels, hnode => by
    have hfuels : Fuels first fuel fuel' := hfuels.pred
    cases node with
    | literal value _ => exact inStep_pure _
    | group inner _ =>
      change InStep first _ _ _ _ _ (evaluate fuel place inner) (evaluate fuel' place' inner)
      exact inStep_evaluate hfuels hnode
    | binary symbol left right type =>
      obtain ⟨hleft, hright⟩ := List.forall_mem_append.mp hnode
      exact inStep_binary (fun h => inStep_evaluate hfuels h) hleft hright
    | access name offset _ _ =>
      obtain ⟨hname, hoffset⟩ := List.forall_mem_cons.mp hnode
      apply (inStep_findVariable hname).bind
      intro slot
      apply inStep_ite (inStep_pure _)
      apply inStep_index (fun h => inStep_evaluate hfuels h) hoffset
      intro handle index
      exact inStep_lift (BlockScript.Run.writing_readItem handle index)
    | call name arguments _ _ =>
      apply (inStep_evaluateAll hfuels hnode).bind
      intro values
      apply (inStep_findFunction values.length).bind
      intro routine
      apply (inStep_lift (BlockScript.Run.writing_note 3 _)).bind
      intro _
      exact inStep_invoke hfuels
    | listLiteral values _ =>
      apply (inStep_evaluateAll hfuels hnode).bind
      intro items
      exact inStep_lift (BlockScript.Run.writing_allocate items)
    | _ => exact inStep_throw _

theorem inStep_evaluateAll : ∀ {fuel fuel' : Nat} {hidden : String → Prop}
    {links : List (Option Nat × Nat)} {place place' : Place} {nodes : List Node},
    Fuels first fuel fuel' → AllAvoid hidden nodes →
    InStep first hidden count links place place' (evaluateAll fuel place nodes)
      (evaluateAll fuel' place' nodes)
  | 0, _, _, _, _, place', nodes, hfuels, _ =>
    inStep_exhausted (r := fun fuel => evaluateAll fuel place' nodes) hfuels rfl
      (logs_evaluateAll _ _ _)
  | fuel + 1, 0, _, _, _, _, _, hfuels, _ => inStep_exhausted' hfuels (logs_evaluateAll _ _ _)
  | _ + 1, _ + 1, _, _, _, _, [], _, _ => inStep_pure _
  | fuel + 1, fuel' + 1, _, _, _, _, node :: rest, hfuels, hnodes => by
    obtain ⟨hnode, hrest⟩ := List.forall_mem_append.mp hnodes
    apply (inStep_evaluate hfuels.pred hnode).bind
    intro value
    exact (inStep_evaluateAll hfuels.pred hrest).bind fun _ => inStep_pure _

theorem inStep_invoke : ∀ {fuel fuel' : Nat} {hidden : String → Prop}
    {links : List (Option Nat × Nat)} {place place' : Place} {routine : Routine}
    {arguments : List Value}, Fuels first fuel fuel' →
    InStep first hidden count links place place' (invoke fuel routine arguments)
      (invoke fuel' routine arguments)
  | 0, _, _, _, _, _, routine, arguments, hfuels =>
    inStep_exhausted (r := fun fuel => invoke fuel routine arguments) hfuels rfl
      (logs_invoke _ _ _ _)
  | fuel + 1, 0, _, _, _, _, _, _, hfuels => inStep_exhausted' hfuels (logs_invoke _ _ _ _)
  | _ + 1, _ + 1, _, _, _, _, .print, [], _ => inStep_throw _
  | _ + 1, _ + 1, _, _, _, _, .print, argument :: _, _ =>
    (inStep_lift (BlockScript.Run.writing_print argument)).bind fun _ => inStep_pure _
  | fuel + 1, fuel' + 1, _, _, _, _, .defined name parameters body, arguments, hfuels => by
    apply inStep_ite _ (inStep_refuse _)
    apply InStep.bind
    -- the body may mention any name, but it sees the scope of the call and the top scope only
    · have hgrows : ∀ fuel inner, Grows inner (do
          bindParameters inner parameters arguments
          executeBlock fuel inner body) := fun fuel inner =>
        grows_bind grows_bindParameters fun _ => grows_executeBlock fuel inner body
      apply inStep_inside_none (hgrows fuel) (hgrows fuel')
      intro id id'
      exact (inStep_bindParameters parameters arguments).bind fun _ =>
        inStep_executeBlock hfuels.pred fun _ _ => not_false
    · rintro (_ | result)
      · exact inStep_pure _
      · exact (inStep_lift (BlockScript.Run.writing_note 3 _)).bind fun _ => inStep_pure _

theorem inStep_execute : ∀ {fuel fuel' : Nat} {hidden : String → Prop}
    {links : List (Option Nat × Nat)} {id id' : Nat} {node : Node},
    Fuels first fuel fuel' → Avoids hidden node →
    InStep first hidden count ((some id, id') :: links) (some id) (some id')
      (execute fuel (some id) node) (execute fuel' (some id') node)
  | 0, _, _, _, _, id', node, hfuels, _ =>
    inStep_exhausted (r := fun fuel => execute fuel (some id') node) hfuels rfl (logs_execute _ _ _)
  | fuel + 1, 0, _, _, _, _, _, hfuels, _ => inStep_exhausted' hfuels (logs_execute _ _ _)
  | fuel + 1, fuel' + 1, hidden, links, id, id', node, hfuels, hnode => by
    have hfuels : Fuels first fuel fuel' := hfuels.pred
    cases node with
    | discard expression =>
      have hexpression : Avoids hidden expression := hnode
      exact (inStep_evaluate hfuels hexpression).bind fun _ => inStep_pure _
    | declaration name _ value _ =>
      obtain ⟨hname, hvalue⟩ := List.forall_mem_cons.mp hnode
      exact inStep_declaration (fun h => inStep_evaluate hfuels h) hname hvalue
    | assignment receiver value =>
      obtain ⟨hreceiver, hvalue⟩ := List.forall_mem_append.mp hnode
      exact inStep_assignment (fun h => inStep_evaluate hfuels h) hreceiver hvalue
    | branch condition thenBody elseBody =>
      obtain ⟨hcondition, hbodies⟩ := List.forall_mem_append.mp hnode
      obtain ⟨hthen, helse⟩ := List.forall_mem_append.mp hbodies
      apply inStep_condition (fun h => inStep_evaluate hfuels h) hcondition
      intro holds
      apply (inStep_lift (BlockScript.Run.writing_note 3 _)).bind
      intro _
      apply inStep_inside (fun inner => grows_executeBlock fuel inner _)
        fun inner => grows_executeBlock fuel' inner _
      intro _ _
      cases holds with
      | true => exact inStep_executeBlock hfuels hthen
      | false => exact inStep_executeBlock hfuels helse
    | switch condition cases =>
      obtain ⟨hcondition, hcases⟩ := List.forall_mem_append.mp hnode
      exact (inStep_evaluate hfuels hcondition).bind fun chosen => inStep_executeCases hfuels hcases
    | loop condition body =>
      obtain ⟨hcondition, hbody⟩ := List.forall_mem_append.mp hnode
      exact inStep_executeLoop hfuels hcondition hbody
    | ret value =>
      have hvalue : Avoids hidden value := hnode
      exact (inStep_evaluate hfuels hvalue).bind fun _ => inStep_pure _
    | _ => exact inStep_throw _

theorem inStep_executeBlock : ∀ {fuel fuel' : Nat} {hidden : String → Prop}
    {links : List (Option Nat × Nat)} {id id' : Nat} {nodes : List Node},
    Fuels first fuel fuel' → AllAvoid hidden nodes →
    InStep first hidden count ((some id, id') :: links) (some id) (some id')
      (executeBlock fuel (some id) nodes) (executeBlock fuel' (some id') nodes)
  | 0, _, _, _, _, id', nodes, hfuels, _ =>
    inStep_exhausted (r := fun fuel => executeBlock fuel (some id') nodes) hfuels rfl
      (logs_executeBlock _ _ _)
  | fuel + 1, 0, _, _, _, _, _, hfuels, _ => inStep_exhausted' hfuels (logs_executeBlock _ _ _)
  | _ + 1, _ + 1, _, _, _, _, [], _, _ => inStep_pure _
  | fuel + 1, fuel' + 1, _, _, _, _, node :: rest, hfuels, hnodes => by
    obtain ⟨hnode, hrest⟩ := List.forall_mem_append.mp hnodes
    apply (inStep_execute hfuels.pred hnode).bind
    rintro (_ | result)
    · exact inStep_executeBlock hfuels.pred hrest
    · exact inStep_pure _

theorem inStep_executeCases : ∀ {fuel fuel' : Nat} {hidden : String → Prop}
    {links : List (Option Nat × Nat)} {place place' : Place} {chosen : Value} {nodes : List Node},
    Fuels first fuel fuel' → AllAvoid hidden nodes →
    InStep first hidden count links place place' (executeCases fuel place chosen nodes)
      (executeCases fuel' place' chosen nodes)
  | 0, _, _, _, _, place', chosen, nodes, hfuels, _ =>
    inStep_exhausted (r := fun fuel => executeCases fuel place' chosen nodes) hfuels rfl
      (logs_executeCases _ _ _ _)
  | fuel + 1, 0, _, _, _, _, _, _, hfuels, _ =>
    inStep_exhausted' hfuels (logs_executeCases _ _ _ _)
  | _ + 1, _ + 1, _, _, _, _, _, [], _, _ => inStep_pure _
  | fuel + 1, fuel' + 1, _, _, _, _, _, node :: rest, hfuels, hnodes => by
    have hfuels : Fuels first fuel fuel' := hfuels.pred
    obtain ⟨hnode, hrest⟩ := List.forall_mem_append.mp hnodes
    cases node with
    | case value body =>
      apply inStep_matched (fun h => inStep_evaluate hfuels h) (Avoids.value? hnode rfl)
      intro matched
      apply inStep_ite _ (inStep_executeCases hfuels hrest)
      apply inStep_inside (fun inner => grows_executeBlock fuel inner body)
        fun inner => grows_executeBlock fuel' inner body
      intro _ _
      exact inStep_executeBlock hfuels (List.forall_mem_append.mp hnode).2
    | declaration | assignment | ret | global =>
      apply inStep_matched (fun h => inStep_evaluate hfuels h) (Avoids.value? hnode rfl)
      intro matched
      exact inStep_ite (inStep_throw _) (inStep_executeCases hfuels hrest)
    | _ => exact inStep_throw _

theorem inStep_executeLoop : ∀ {fuel fuel' : Nat} {hidden : String → Prop}
    {links : List (Option Nat × Nat)} {place place' : Place} {condition : Node}
    {body : List Node}, Fuels first fuel fuel' → Avoids hidden condition → AllAvoid hidden body →
    InStep first hidden count links place place' (executeLoop fuel place condition body)
      (executeLoop fuel' place' condition body)
  | 0, _, _, _, _, place', condition, body, hfuels, _, _ =>
    inStep_exhausted (r := fun fuel => executeLoop fuel place' condition body) hfuels rfl
      (logs_executeLoop _ _ _ _)
  | fuel + 1, 0, _, _, _, _, _, _, hfuels, _, _ =>
    inStep_exhausted' hfuels (logs_executeLoop _ _ _ _)
  | fuel + 1, fuel' + 1, _, _, _, _, condition, body, hfuels, hcondition, hbody => by
    have hfuels : Fuels first fuel fuel' := hfuels.pred
    apply inStep_condition (fun h => inStep_evaluate hfuels h) hcondition
    intro holds
    apply inStep_ite _ (inStep_pure _)
    apply InStep.bind
    · apply inStep_inside (fun inner => grows_executeBlock fuel inner body)
        fun inner => grows_executeBlock fuel' inner body
      intro _ _
      exact inStep_executeBlock hfuels hbody
    · rintro (_ | result)
      · exact inStep_executeLoop hfuels hcondition hbody
      · exact inStep_pure _

end

end

end Scoped

end BlockScript

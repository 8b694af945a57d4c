import BlockScript.Proofs.Scoped.Changes
import BlockScript.Proofs.Scoped.Interpreter
/-!
# Evaluation and execution touch only what they may

An expression, wherever it stands, changes values of mutable variables of the top scope and items of
lists and nothing else that was there; a statement defines at most the name that it declares, in its
own scope, and nothing in any other one. Both hold whether the end is reached or a failure comes
first, for every amount of fuel.

A call may execute anything, but in a new scope directly inside the top scope, from where no other
scope is seen; so it does no more than an expression may do. The induction is on the fuel, over all
parts of the interpreter at once.

## Main definitions

* `Scoped.Quiet` — computations that may do what an expression may do
* `Scoped.Defines`, `Scoped.Grows` — computations that may do what statements may do

## Main results

* `Scoped.quiet_evaluate` — expressions
* `Scoped.defines_execute` — statements
-/

namespace BlockScript

/-- The name that a statement declares. -/
def Node.declared : Node → List String
  | declaration name _ _ _ => [name]
  | _ => []

namespace Scoped

open BlockScript.Scoped.Run

variable {α β : Type} {place : Place} {declared : List String} {name : String}

/-- A computation changes values of mutable variables of the top scope and items of lists, and
nothing else that was there. -/
def Quiet (x : Run α) : Prop :=
  ∀ σ, Changes none [] σ (behind (x σ))

/-- A computation in a scope defines there the first of the given names, or as many as it comes
to. -/
def Defines (place : Place) (declared : List String) (x : Run α) : Prop :=
  ∀ σ, σ.Has place → ∃ names, names <+: declared ∧ Changes place names σ (behind (x σ))

/-- A computation in a scope defines any names there. -/
def Grows (place : Place) (x : Run α) : Prop :=
  ∀ σ, σ.Has place → ∃ names, Changes place names σ (behind (x σ))

/-! ### Computations in a row -/

theorem quiet_pure (a : α) : Quiet (pure a) :=
  fun σ => .refl none σ

theorem quiet_throw (failure : Failure) : Quiet (throw failure : Run α) :=
  fun σ => .refl none σ

theorem quiet_bind {x : Run α} {k : α → Run β} (hx : Quiet x) (hk : ∀ a, Quiet (k a)) :
    Quiet (x >>= k) := by
  intro σ
  have hfirst := hx σ
  rw [behind_bind]
  cases h : x σ with
  | ok a after =>
    rw [h] at hfirst
    exact hfirst.trans State.has_none (hk a after)
  | error failure after =>
    rwa [h] at hfirst

theorem quiet_ite {p : Prop} [Decidable p] {x y : Run α} (hx : Quiet x) (hy : Quiet y) :
    Quiet (if p then x else y) := by
  split
  · exact hx
  · exact hy

theorem Quiet.defines {x : Run α} (hx : Quiet x) : Defines place declared x :=
  fun σ _ => ⟨[], List.nil_prefix, (hx σ).widen⟩

theorem Defines.grows {x : Run α} (hx : Defines place declared x) : Grows place x := by
  intro σ hplace
  obtain ⟨names, -, hchanges⟩ := hx σ hplace
  exact ⟨names, hchanges⟩

theorem Quiet.grows {x : Run α} (hx : Quiet x) : Grows place x := by
  intro σ _
  exact ⟨[], (hx σ).widen⟩

theorem defines_bind {x : Run α} {k : α → Run β} (hx : Defines place [] x)
    (hk : ∀ a, Defines place declared (k a)) : Defines place declared (x >>= k) := by
  intro σ hplace
  obtain ⟨names, hnames, hfirst⟩ := hx σ hplace
  obtain rfl := List.prefix_nil.mp hnames
  rw [behind_bind]
  cases h : x σ with
  | ok a after =>
    rw [h] at hfirst
    obtain ⟨names, hnames, hsecond⟩ := hk a after (hfirst.has hplace)
    exact ⟨names, hnames, hfirst.trans hplace hsecond⟩
  | error failure after =>
    rw [h] at hfirst
    exact ⟨[], List.nil_prefix, hfirst⟩

theorem defines_bind_quiet {x : Run α} {k : α → Run β} (hx : Defines place declared x)
    (hk : ∀ a, Quiet (k a)) : Defines place declared (x >>= k) := by
  intro σ hplace
  obtain ⟨names, hnames, hfirst⟩ := hx σ hplace
  rw [behind_bind]
  cases h : x σ with
  | ok a after =>
    rw [h] at hfirst
    have hboth := hfirst.trans hplace (hk a after).widen
    rw [List.append_nil] at hboth
    exact ⟨names, hnames, hboth⟩
  | error failure after =>
    rw [h] at hfirst
    exact ⟨names, hnames, hfirst⟩

theorem defines_ite {p : Prop} [Decidable p] {x y : Run α} (hx : Defines place declared x)
    (hy : Defines place declared y) : Defines place declared (if p then x else y) := by
  split
  · exact hx
  · exact hy

theorem grows_bind {x : Run α} {k : α → Run β} (hx : Grows place x)
    (hk : ∀ a, Grows place (k a)) : Grows place (x >>= k) := by
  intro σ hplace
  obtain ⟨names, hfirst⟩ := hx σ hplace
  rw [behind_bind]
  cases h : x σ with
  | ok a after =>
    rw [h] at hfirst
    obtain ⟨names', hsecond⟩ := hk a after (hfirst.has hplace)
    exact ⟨names ++ names', hfirst.trans hplace hsecond⟩
  | error failure after =>
    rw [h] at hfirst
    exact ⟨names, hfirst⟩

/-! ### Computations that do without local scopes -/

theorem quiet_lift {x : BlockScript.Run α} (htop : ∀ world, (behind (x world)).top = world.top)
    (hlengths : ∀ world : World, world.lengths <+: (behind (x world)).lengths) :
    Quiet (lift x) := by
  intro σ
  have hbehind : behind (lift x σ) = { σ with world := behind (x σ.world) } := by
    unfold lift
    cases x σ.world <;> rfl
  rw [hbehind]
  exact changes_world (htop σ.world) (hlengths σ.world)

/-- What reads only is quiet. -/
theorem quiet_lift_of_reads {x : BlockScript.Run α} (h : ∀ world, behind (x world) = world) :
    Quiet (lift x) := by
  apply quiet_lift
  · intro world
    rw [h]
  · intro world
    exact (h world).symm ▸ List.prefix_refl _

theorem quiet_lift_get_bind {next : World → BlockScript.Run α}
    (h : ∀ world, behind (next world world) = world) : Quiet (lift (get >>= next)) :=
  quiet_lift_of_reads h

theorem quiet_refuse (error : EvaluationError) :
    Quiet (lift (BlockScript.Run.refuse error : BlockScript.Run α)) :=
  quiet_lift_of_reads fun _ => rfl

theorem quiet_ofScope (found : Except ScopeError α) :
    Quiet (lift (BlockScript.Run.ofScope found)) := by
  apply quiet_lift_of_reads
  intro world
  cases found <;> rfl

theorem quiet_requireBoolean (value : Value) :
    Quiet (lift (BlockScript.Run.requireBoolean value)) := by
  unfold BlockScript.Run.requireBoolean
  split <;> exact quiet_lift_of_reads fun _ => rfl

theorem quiet_requireList (name : String) (slot : Slot) :
    Quiet (lift (BlockScript.Run.requireList name slot)) := by
  unfold BlockScript.Run.requireList
  split <;> exact quiet_lift_of_reads fun _ => rfl

theorem quiet_requireOffset (handle : Nat) (value : Value) :
    Quiet (lift (BlockScript.Run.requireOffset handle value)) := by
  unfold BlockScript.Run.requireOffset
  split
  · apply quiet_lift_get_bind
    intro world
    split <;> rfl
  · exact quiet_refuse _

theorem quiet_readItem (handle index : Nat) :
    Quiet (lift (BlockScript.Run.readItem handle index)) :=
  quiet_lift_of_reads fun _ => rfl

theorem quiet_applyToValues (symbol : String) (left right : Value) :
    Quiet (lift (applyToValues symbol left right)) := by
  apply quiet_lift_get_bind
  intro world
  -- a refusal, a result that is too great, or a result
  rcases applySymbol symbol (world.datum left) (world.datum right) with ⟨_ | _⟩ | _ <;> rfl

theorem quiet_note (level : Int) (text : World → String) :
    Quiet (lift (BlockScript.Run.note level text)) :=
  quiet_lift (fun _ => rfl) fun _ => List.prefix_refl _

theorem quiet_writeItem (handle index : Nat) (value : Value) :
    Quiet (lift (BlockScript.Run.writeItem handle index value)) :=
  quiet_lift (fun _ => rfl) fun _ => World.lengths_set.symm ▸ List.prefix_refl _

theorem quiet_allocate (items : List Value) : Quiet (lift (BlockScript.Run.allocate items)) :=
  quiet_lift (fun _ => rfl) fun _ => World.lengths_push ▸ List.prefix_append _ _

theorem quiet_print (text : World → String) :
    Quiet (lift (modify fun world =>
      { world with transcript := world.transcript.print (text world) })) :=
  quiet_lift (fun _ => rfl) fun _ => List.prefix_refl _

/-! ### Variables and scopes -/

theorem quiet_findVariable (place : Place) (name : String) : Quiet (findVariable place name) :=
  fun σ => quiet_ofScope _ σ

theorem quiet_findFunction (place : Place) (name : String) (arity : Nat) :
    Quiet (findFunction place name arity) :=
  fun σ => quiet_ofScope _ σ

theorem define_apply (place : Place) (name : String) (slot : Slot) (σ : State) :
    define place name slot σ =
      match (σ.frame place).defineVariable name slot with
      | .ok frame => .ok () (σ.setFrame place frame)
      | .error e => .error (.error (.scope e)) σ := by
  rw [define, get_bind_apply]
  cases (σ.frame place).defineVariable name slot <;> rfl

theorem defines_define {slot : Slot} (hslot : slot.mutable = true) :
    Defines place [name] (define place name slot) := by
  intro σ hplace
  rw [define_apply]
  cases h : (σ.frame place).defineVariable name slot with
  | error e => exact ⟨[], List.nil_prefix, .refl place σ⟩
  | ok frame =>
    have hframe := FrameChange.of_defineVariable hslot h
    exact ⟨[name], List.prefix_refl _, changes_setFrame hplace State.self_mem_path hframe
      (Frame.names_of_defineVariable h) (.inr rfl)⟩

theorem grows_bindParameters {parameters : List String} :
    ∀ {arguments : List Value}, Grows place (bindParameters place parameters arguments) := by
  induction parameters with
  | nil => exact fun σ _ => ⟨[], .refl place σ⟩
  | cons parameter parameters ih =>
    intro arguments
    cases arguments with
    | nil => exact fun σ _ => ⟨[], .refl place σ⟩
    | cons argument arguments =>
      apply grows_bind (defines_define rfl).grows
      intro _
      exact ih

/-- A variable that was found is the one of its owner. -/
theorem defines_findVariable_bind {k : Slot → Run α}
    (hk : ∀ σ slot, σ.Has place → (σ.frame (σ.owner place name)).findVariable? name = some slot →
      ∃ names, names <+: declared ∧ Changes place names σ (behind (k slot σ))) :
    Defines place declared (findVariable place name >>= k) := by
  intro σ hplace
  have hfind : findVariable place name σ =
      match (σ.frame (σ.owner place name)).findVariable? name with
      | some slot => .ok slot σ
      | none => .error (.error (.scope (.undefinedVariable name))) σ := by
    rw [findVariable, get_bind_apply, Chain.lookupVariable, State.findVariable?_owner]
    cases (σ.frame (σ.owner place name)).findVariable? name <;> rfl
  rw [behind_bind, hfind]
  cases hfound : (σ.frame (σ.owner place name)).findVariable? name with
  | none => exact ⟨[], List.nil_prefix, .refl place σ⟩
  | some slot => exact hk σ slot hplace hfound

theorem changes_assign {σ : State} {slot : Slot} (hplace : σ.Has place)
    (hfound : (σ.frame (σ.owner place name)).findVariable? name = some slot)
    (hslot : slot.mutable = true) (value : Value) :
    Changes place [] σ (behind (assign place name value σ)) :=
  changes_setFrame hplace State.owner_mem_path (.updateVariable hfound hslot value) (by simp)
    (.inl rfl)

/-- What is done in a new scope defines nothing around it. -/
theorem defines_inside {block : Place → Run α} (h : ∀ inner, Grows inner (block inner)) :
    Defines place declared (inside place block) := by
  intro σ hplace
  obtain ⟨names, hchanges⟩ := h (some σ.next) (σ.opened place) State.has_opened_self
  exact ⟨[], List.nil_prefix, hchanges.leave hplace⟩

/-- What is done in a new scope directly inside the top scope is quiet. -/
theorem quiet_inside {block : Place → Run α} (h : ∀ inner, Grows inner (block inner)) :
    Quiet (inside none block) := by
  intro σ
  have hdefines : Defines none [] (inside none block) := defines_inside h
  obtain ⟨names, hnames, hchanges⟩ := hdefines σ State.has_none
  obtain rfl := List.prefix_nil.mp hnames
  exact hchanges

/-! ### Expressions and statements -/

/-- Expressions are quiet with some fuel. -/
def EvaluatesQuietly (fuel : Nat) : Prop :=
  ∀ (place : Place) (node : Node), Quiet (evaluate fuel place node)

section

variable {fuel : Nat}

theorem quiet_condition {condition : Node} {next : Bool → Run α}
    (hevaluate : EvaluatesQuietly fuel) (hnext : ∀ holds, Quiet (next holds)) :
    Quiet (do
      let chosen ← evaluate fuel place condition
      next (← lift (BlockScript.Run.requireBoolean chosen))) := by
  apply quiet_bind (hevaluate place condition)
  intro chosen
  exact quiet_bind (quiet_requireBoolean chosen) hnext

theorem defines_condition {condition : Node} {next : Bool → Run α}
    (hevaluate : EvaluatesQuietly fuel) (hnext : ∀ holds, Defines place declared (next holds)) :
    Defines place declared (do
      let chosen ← evaluate fuel place condition
      next (← lift (BlockScript.Run.requireBoolean chosen))) := by
  apply defines_bind (hevaluate place condition).defines
  intro chosen
  exact defines_bind (quiet_requireBoolean chosen).defines hnext

theorem quiet_index {slot : Slot} {offset : Node} {next : Nat → Nat → Run α}
    (hevaluate : EvaluatesQuietly fuel) (hnext : ∀ handle index, Quiet (next handle index)) :
    Quiet (do
      let handle ← lift (BlockScript.Run.requireList name slot)
      let position ← evaluate fuel place offset
      let index ← lift (BlockScript.Run.requireOffset handle position)
      next handle index) := by
  apply quiet_bind (quiet_requireList name slot)
  intro handle
  apply quiet_bind (hevaluate place offset)
  intro position
  exact quiet_bind (quiet_requireOffset handle position) (hnext handle)

theorem quiet_binary {symbol : String} {left right : Node} {type : Option Ty}
    (hevaluate : EvaluatesQuietly fuel) :
    Quiet (evaluate (fuel + 1) place (.binary symbol left right type)) := by
  have hright : Quiet (do
      let second ← evaluate fuel place right
      return Value.scalar (.boolean (← lift (BlockScript.Run.requireBoolean second)))) :=
    quiet_condition hevaluate fun _ => quiet_pure _
  apply quiet_bind (hevaluate place left)
  intro first
  apply quiet_ite
  · apply quiet_bind (quiet_requireBoolean first)
    intro holds
    exact quiet_ite hright (quiet_pure _)
  apply quiet_ite
  · apply quiet_bind (quiet_requireBoolean first)
    intro holds
    exact quiet_ite (quiet_pure _) hright
  -- any other operator
  apply quiet_bind (hevaluate place right)
  intro second
  exact quiet_applyToValues symbol first second

theorem defines_assignment {offset value : Node} {type : Option Ty} {binding : Option Binding}
    (hevaluate : EvaluatesQuietly fuel) :
    Defines place []
      (execute (fuel + 1) place (.assignment (.access name offset type binding) value)) := by
  apply defines_bind (hevaluate place value).defines
  intro result
  apply defines_findVariable_bind
  intro σ slot hplace hfound
  by_cases hoffset : offset.isNull = true
  · rw [if_pos hoffset]
    by_cases hslot : slot.mutable = true
    · rw [if_pos hslot]
      exact ⟨[], List.nil_prefix, changes_assign hplace hfound hslot result⟩
    · rw [if_neg hslot]
      exact (quiet_refuse _).defines σ hplace
  · rw [if_neg hoffset]
    -- an item of the list is changed, and no variable
    apply Quiet.defines _ σ hplace
    apply quiet_index hevaluate
    intro handle index
    apply quiet_bind (quiet_writeItem handle index result)
    intro _
    exact quiet_pure _

/-- Whether a case is chosen is found out without a change of a local scope. -/
theorem defines_matched {value : Node} {chosen : Value} {next : Bool → Run α}
    (hevaluate : EvaluatesQuietly fuel)
    (hnext : ∀ matched, Defines place declared (next matched)) :
    Defines place declared (do
      let matched ← if value.isNull then pure true else do
        let found ← evaluate fuel place value
        let σ ← get
        pure ((σ.world.datum found).same (σ.world.datum chosen))
      next matched) := by
  apply defines_ite
  · exact hnext true
  · apply defines_bind (hevaluate place value).defines
    intro found σ hplace
    exact hnext _ σ hplace

end

mutual

theorem quiet_evaluate : ∀ (fuel : Nat) (place : Place) (node : Node),
    Quiet (evaluate fuel place node)
  | 0, _, _ => quiet_throw _
  | fuel + 1, place, node => by
    cases node with
    | literal value _ => exact quiet_pure _
    | group inner _ => exact quiet_evaluate fuel place inner
    | binary symbol left right type => exact quiet_binary (quiet_evaluate fuel)
    | access name offset _ _ =>
      apply quiet_bind (quiet_findVariable place name)
      intro slot
      apply quiet_ite (quiet_pure _)
      exact quiet_index (quiet_evaluate fuel) quiet_readItem
    | call name arguments _ _ =>
      apply quiet_bind (quiet_evaluateAll fuel place arguments)
      intro values
      apply quiet_bind (quiet_findFunction place name values.length)
      intro routine
      apply quiet_bind (quiet_note _ _)
      intro _
      exact quiet_invoke fuel routine values
    | listLiteral values _ =>
      apply quiet_bind (quiet_evaluateAll fuel place values)
      intro items
      exact quiet_allocate items
    | _ => exact quiet_throw _

theorem quiet_evaluateAll : ∀ (fuel : Nat) (place : Place) (nodes : List Node),
    Quiet (evaluateAll fuel place nodes)
  | 0, _, _ => quiet_throw _
  | _ + 1, _, [] => quiet_pure _
  | fuel + 1, place, node :: rest => by
    apply quiet_bind (quiet_evaluate fuel place node)
    intro first
    apply quiet_bind (quiet_evaluateAll fuel place rest)
    intro others
    exact quiet_pure _

theorem quiet_invoke : ∀ (fuel : Nat) (routine : Routine) (arguments : List Value),
    Quiet (invoke fuel routine arguments)
  | 0, _, _ => quiet_throw _
  | _ + 1, .print, [] => quiet_throw _
  | _ + 1, .print, _ :: _ => quiet_bind (quiet_print _) fun _ => quiet_pure _
  | fuel + 1, .defined name parameters body, arguments => by
    apply quiet_ite _ (quiet_refuse _)
    -- whatever the body does, it does in a scope of its own
    apply quiet_bind
    · apply quiet_inside
      intro inner
      apply grows_bind grows_bindParameters
      intro _
      exact grows_executeBlock fuel inner body
    · rintro (_ | result)
      · exact quiet_pure _
      · exact quiet_bind (quiet_note _ _) fun _ => quiet_pure _

theorem defines_execute : ∀ (fuel : Nat) (place : Place) (node : Node),
    Defines place node.declared (execute fuel place node)
  | 0, _, _ => (quiet_throw _).defines
  | fuel + 1, place, node => by
    cases node with
    | discard expression =>
      apply defines_bind (quiet_evaluate fuel place expression).defines
      intro _
      exact (quiet_pure _).defines
    | declaration name _ value _ =>
      have hdefine : ∀ initial, Defines place [name] (do
          define place name { value := initial, mutable := true }
          lift (BlockScript.Run.note 2 fun world =>
            "declare " ++ name ++ " = " ++ world.textOf initial)
          return (none : Option Value)) := by
        intro initial
        apply defines_bind_quiet (defines_define rfl)
        intro _
        exact quiet_bind (quiet_note _ _) fun _ => quiet_pure _
      exact defines_ite (hdefine _) (defines_bind (quiet_evaluate fuel place value).defines hdefine)
    | assignment receiver value =>
      cases receiver with
      | access name offset _ _ => exact defines_assignment (quiet_evaluate fuel)
      | _ =>
        apply defines_bind (quiet_evaluate fuel place value).defines
        intro result
        exact (quiet_refuse _).defines
    | branch condition thenBody elseBody =>
      apply defines_condition (quiet_evaluate fuel)
      intro holds
      apply defines_bind (quiet_note _ _).defines
      intro _
      apply defines_inside
      intro inner
      exact grows_executeBlock fuel inner _
    | switch condition cases =>
      apply defines_bind (quiet_evaluate fuel place condition).defines
      intro chosen
      exact defines_executeCases fuel place chosen cases
    | loop condition body => exact defines_executeLoop fuel place condition body
    | ret value =>
      apply defines_bind (quiet_evaluate fuel place value).defines
      intro result
      exact (quiet_pure _).defines
    | _ => exact (quiet_throw _).defines

theorem grows_executeBlock : ∀ (fuel : Nat) (place : Place) (nodes : List Node),
    Grows place (executeBlock fuel place nodes)
  | 0, place, _ => (quiet_throw _).grows
  | _ + 1, place, [] => (quiet_pure _).grows
  | fuel + 1, place, statement :: rest => by
    apply grows_bind (defines_execute fuel place statement).grows
    rintro (_ | result)
    · exact grows_executeBlock fuel place rest
    · exact (quiet_pure _).grows

theorem defines_executeCases : ∀ (fuel : Nat) (place : Place) (chosen : Value)
    (nodes : List Node), Defines place [] (executeCases fuel place chosen nodes)
  | 0, _, _, _ => (quiet_throw _).defines
  | _ + 1, _, _, [] => (quiet_pure _).defines
  | fuel + 1, place, chosen, node :: rest => by
    cases node with
    | case value body =>
      apply defines_matched (quiet_evaluate fuel)
      intro matched
      apply defines_ite _ (defines_executeCases fuel place chosen rest)
      apply defines_inside
      intro inner
      exact grows_executeBlock fuel inner body
    | declaration | assignment | ret | global =>
      apply defines_matched (quiet_evaluate fuel)
      intro matched
      exact defines_ite (quiet_throw _).defines (defines_executeCases fuel place chosen rest)
    | _ => exact (quiet_throw _).defines

theorem defines_executeLoop : ∀ (fuel : Nat) (place : Place) (condition : Node)
    (body : List Node), Defines place [] (executeLoop fuel place condition body)
  | 0, _, _, _ => (quiet_throw _).defines
  | fuel + 1, place, condition, body => by
    apply defines_condition (quiet_evaluate fuel)
    intro holds
    apply defines_ite _ (quiet_pure _).defines
    apply defines_bind (defines_inside fun inner => grows_executeBlock fuel inner body)
    rintro (_ | result)
    · exact defines_executeLoop fuel place condition body
    · exact (quiet_pure _).defines

end

end Scoped

end BlockScript

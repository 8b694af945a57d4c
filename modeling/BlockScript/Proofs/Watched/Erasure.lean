import BlockScript.Proofs.Watched.Interpreter
/-!
# Watching has no influence

A watched run does what the run does that is not watched: it needs the same fuel, ends with the same
value or the same failure, and leaves the same variables, lists and output behind.

## Main definitions

* `Watched.Erases` — a watched computation does what another one does

## Main results

* `Watched.erases_runProgram` — watched programs do what programs do
-/

namespace BlockScript

/-! ### Frames with other entries -/

section Map

variable {V W F G : Type} {f : V → W} {g : F → G} {frame : Frame V F} {name : String}

theorem lookup_map_snd {K : Type} [BEq K] {f : V → W} (entries : List (K × V)) (key : K) :
    (entries.map fun entry => (entry.1, f entry.2)).lookup key = (entries.lookup key).map f := by
  induction entries with
  | nil => rfl
  | cons entry rest ih =>
    obtain ⟨own, v⟩ := entry
    rw [List.map_cons, List.lookup_cons, List.lookup_cons]
    cases key == own with
    | true => rfl
    | false => exact ih

theorem Frame.findVariable?_map :
    (frame.map f g).findVariable? name = (frame.findVariable? name).map f :=
  lookup_map_snd frame.vars name

theorem Frame.findFunction?_map {arity : Nat} :
    (frame.map f g).findFunction? name arity = (frame.findFunction? name arity).map g :=
  lookup_map_snd frame.funs (name, arity)

theorem Frame.defineVariable_map {v : V} :
    (frame.map f g).defineVariable name (f v) =
      (frame.defineVariable name v).map fun after => after.map f g := by
  unfold Frame.defineVariable
  rw [findVariable?_map]
  cases frame.findVariable? name with
  | none => simp [Frame.map, Except.map]
  | some found => rfl

theorem Frame.defineFunction_map {arity : Nat} {r : F} :
    (frame.map f g).defineFunction name arity (g r) =
      (frame.defineFunction name arity r).map fun after => after.map f g := by
  unfold Frame.defineFunction
  rw [findFunction?_map]
  cases frame.findFunction? name arity with
  | none => simp [Frame.map, Except.map]
  | some found => rfl

theorem Frame.updateVariable_map {change : V → V} {change' : W → W}
    (h : ∀ v, change' (f v) = f (change v)) :
    (frame.map f g).updateVariable name change' = (frame.updateVariable name change).map f g := by
  -- an update changes entries one by one, and so does erasing
  simp only [Frame.updateVariable, Frame.map, List.map_map, Frame.mk.injEq, and_true]
  apply List.map_congr_left
  intro entry _
  by_cases hname : entry.1 = name
  · simp [hname, h]
  · simp [hname]

variable {chain : Chain V F}

theorem Chain.findVariable?_map :
    Chain.findVariable? (chain.map fun frame => frame.map f g) name =
      (Chain.findVariable? chain name).map f := by
  induction chain with
  | nil => rfl
  | cons frame outer ih =>
    have hframe : (frame.map f g).findVariable? name = (frame.findVariable? name).map f :=
      Frame.findVariable?_map
    simp only [Chain.findVariable?, List.map_cons, List.findSome?_cons, hframe] at ih ⊢
    cases frame.findVariable? name with
    | none => exact ih
    | some v => rfl

theorem Chain.findFunction?_map {arity : Nat} :
    Chain.findFunction? (chain.map fun frame => frame.map f g) name arity =
      (Chain.findFunction? chain name arity).map g := by
  induction chain with
  | nil => rfl
  | cons frame outer ih =>
    have hframe : (frame.map f g).findFunction? name arity =
        (frame.findFunction? name arity).map g :=
      Frame.findFunction?_map
    simp only [Chain.findFunction?, List.map_cons, List.findSome?_cons, hframe] at ih ⊢
    cases frame.findFunction? name arity with
    | none => exact ih
    | some r => rfl

theorem Chain.updateVariable_map {change : V → V} {change' : W → W}
    (h : ∀ v, change' (f v) = f (change v)) :
    Chain.updateVariable name change' (chain.map fun frame => frame.map f g) =
      (Chain.updateVariable name change chain).map fun frame => frame.map f g := by
  induction chain with
  | nil => rfl
  | cons frame outer ih =>
    simp only [List.map_cons, Chain.updateVariable, Frame.findVariable?_map]
    cases frame.findVariable? name with
    | none =>
      rw [Option.map_none, List.map_cons, ih]
    | some v =>
      rw [Option.map_some, List.map_cons, Frame.updateVariable_map h]

end Map

namespace Watched

open BlockScript.Watched.Run

variable {α β γ δ : Type}

/-- A result as runs give it that are not watched. -/
def eraseResult (f : α → β) :
    EStateM.Result Failure World α → EStateM.Result Failure BlockScript.World β
  | .ok a world => .ok (f a) world.erase
  | .error failure world => .error failure world.erase

/-- A watched computation does what another one does, up to what is kept for watching. -/
def Erases (f : α → β) (x : Run α) (y : BlockScript.Run β) : Prop :=
  ∀ world, eraseResult f (x world) = y world.erase

/-! ### Computations in a row -/

theorem erases_pure {f : α → β} {a : α} {b : β} (h : f a = b) : Erases f (pure a) (pure b) := by
  intro world
  rw [← h]
  rfl

theorem erases_throw {f : α → β} {failure : Failure} : Erases f (throw failure) (throw failure) :=
  fun _ => rfl

theorem erases_bind {f : α → β} {g : γ → δ} {x : Run α} {y : BlockScript.Run β}
    {k : α → Run γ} {l : β → BlockScript.Run δ} (h : Erases f x y)
    (hnext : ∀ a, Erases g (k a) (l (f a))) : Erases g (x >>= k) (y >>= l) := by
  intro world
  have hworld := h world
  cases hx : x world with
  | ok a after =>
    rw [hx] at hworld
    simp only [bind, EStateM.bind, hx, ← hworld, eraseResult]
    exact hnext a after
  | error failure after =>
    rw [hx] at hworld
    simp only [bind, EStateM.bind, hx, ← hworld, eraseResult]

theorem erases_ite {f : α → β} {p : Prop} [Decidable p] {x x' : Run α}
    {y y' : BlockScript.Run β} (h : Erases f x y) (h' : Erases f x' y') :
    Erases f (if p then x else x') (if p then y else y') := by
  by_cases hp : p
  · rwa [if_pos hp, if_pos hp]
  · rwa [if_neg hp, if_neg hp]

theorem erases_ite_bind {f : α → β} {g : γ → δ} {p : Prop} [Decidable p] {x x' : Run α}
    {y y' : BlockScript.Run β} {k : α → Run γ} {l : β → BlockScript.Run δ} (h : Erases f x y)
    (h' : Erases f x' y') (hnext : ∀ a, Erases g (k a) (l (f a))) :
    Erases g (if p then x >>= k else x' >>= k) (if p then y >>= l else y' >>= l) :=
  erases_ite (erases_bind h hnext) (erases_bind h' hnext)

/-- Reporting leaves no trace. -/
theorem erases_report {g : γ → δ} {place : Place} {event : Event} {k : Unit → Run γ}
    {y : BlockScript.Run δ} (h : Erases g (k ()) y) : Erases g (report place event >>= k) y :=
  fun world => h (world.see place event)

theorem erases_get {g : γ → δ} {k : World → Run γ} {l : BlockScript.World → BlockScript.Run δ}
    (h : ∀ world, Erases g (k world) (l world.erase)) : Erases g (get >>= k) (get >>= l) :=
  fun world => h world world

theorem erases_modify {change : World → World} {change' : BlockScript.World → BlockScript.World}
    (h : ∀ world, (change world).erase = change' world.erase) :
    Erases id (modify change) (modify change') :=
  fun world => congrArg (EStateM.Result.ok ()) (h world)

theorem erases_withEntry {f : α → β} {next : Nat → Run α} {y : BlockScript.Run β}
    (h : ∀ entry, Erases f (next entry) y) : Erases f (withEntry next) y :=
  fun world => h world.next { world with next := world.next + 1 }

theorem erases_note {level : Int} {text : BlockScript.World → String} :
    Erases id (note level text) (BlockScript.Run.note level text) :=
  fun _ => rfl

theorem erases_ofScope {f : α → β} {x : Except ScopeError α} {y : Except ScopeError β}
    (h : x.map f = y) : Erases f (ofScope x) (BlockScript.Run.ofScope y) := by
  rw [← h]
  cases x with
  | ok a => exact erases_pure rfl
  | error e => exact erases_throw

theorem erases_evaluating {place : Place} {node : Node} {x : Run Value}
    {y : BlockScript.Run Value} (h : Erases id x y) : Erases id (evaluating place node x) y := by
  -- the report has no counterpart, so an empty step stands for it
  rw [← bind_pure y]
  apply erases_bind h
  intro value
  exact erases_report (erases_pure rfl)

/-! ### Computations that leave the frames alone -/

/-- The state that a result leaves behind. -/
def worldBehind : EStateM.Result Failure BlockScript.World α → BlockScript.World
  | .ok _ world => world
  | .error _ world => world

/-- A computation leaves the top frame as it was. -/
def LeavesTop (x : BlockScript.Run α) : Prop :=
  ∀ world, (worldBehind (x world)).top = world.top

theorem leavesTop_pure (a : α) : LeavesTop (pure a) :=
  fun _ => rfl

theorem leavesTop_throw (failure : Failure) : LeavesTop (throw failure : BlockScript.Run α) :=
  fun _ => rfl

theorem leavesTop_get_bind {next : BlockScript.World → BlockScript.Run α}
    (h : ∀ world, (worldBehind (next world world)).top = world.top) : LeavesTop (get >>= next) :=
  h

theorem leavesTop_modify {change : BlockScript.World → BlockScript.World}
    (h : ∀ world, (change world).top = world.top) : LeavesTop (modify change) :=
  h

theorem leavesTop_requireBoolean (value : Value) :
    LeavesTop (BlockScript.Run.requireBoolean value) := by
  unfold BlockScript.Run.requireBoolean
  split
  · exact leavesTop_pure _
  · exact leavesTop_throw _

theorem leavesTop_requireList (name : String) (slot : BlockScript.Slot) :
    LeavesTop (BlockScript.Run.requireList name slot) := by
  unfold BlockScript.Run.requireList
  split
  · exact leavesTop_pure _
  · exact leavesTop_throw _

theorem leavesTop_requireOffset (handle : Nat) (value : Value) :
    LeavesTop (BlockScript.Run.requireOffset handle value) := by
  unfold BlockScript.Run.requireOffset
  split
  · apply leavesTop_get_bind
    intro world
    split <;> rfl
  · exact leavesTop_throw _

theorem leavesTop_readItem (handle index : Nat) :
    LeavesTop (BlockScript.Run.readItem handle index) :=
  leavesTop_get_bind fun _ => rfl

theorem leavesTop_writeItem (handle index : Nat) (value : Value) :
    LeavesTop (BlockScript.Run.writeItem handle index value) :=
  leavesTop_modify fun _ => rfl

theorem leavesTop_allocate (items : List Value) : LeavesTop (BlockScript.Run.allocate items) :=
  leavesTop_get_bind fun _ => rfl

theorem leavesTop_applyToValues (symbol : String) (left right : Value) :
    LeavesTop (applyToValues symbol left right) := by
  apply leavesTop_get_bind
  intro world
  -- a refusal, a result that is too great, or a result
  rcases applySymbol symbol (world.datum left) (world.datum right) with ⟨_ | _⟩ | _ <;> rfl

theorem erases_perform {place : Place} {node : Node} {x : BlockScript.Run α} (h : LeavesTop x) :
    Erases id (perform place node x) x := by
  intro world
  -- of the state behind, the lists and the output are kept, and the frames are the old ones
  have htop := h world.erase
  unfold perform
  cases hx : x world.erase with
  | ok a after =>
    rw [hx] at htop
    simp only [eraseResult, id, World.keep, World.erase]
    rw [show world.top.erase = after.top from htop.symm]
  | error failure after =>
    rw [hx] at htop
    simp only [eraseResult, World.see, World.keep, World.erase]
    rw [show world.top.erase = after.top from htop.symm]

/-! ### Variables and functions -/

theorem erase_lookupVariable (locals : Chain) (world : World) (name : String) :
    (Chain.lookupVariable (locals ++ world.outerChain) name).map Slot.erase =
      Chain.lookupVariable (Chain.erase locals ++ world.erase.outerChain) name := by
  have hchain : Chain.erase locals ++ world.erase.outerChain =
      (locals ++ world.outerChain).map fun frame => frame.map Slot.erase Routine.erase := by
    rw [List.map_append]
    rfl
  rw [hchain, Chain.lookupVariable, Chain.lookupVariable, Chain.findVariable?_map]
  cases Chain.findVariable? (locals ++ world.outerChain) name <;> rfl

theorem erase_lookupFunction (locals : Chain) (world : World) (name : String) (arity : Nat) :
    (Chain.lookupFunction (locals ++ world.outerChain) name arity).map Routine.erase =
      Chain.lookupFunction (Chain.erase locals ++ world.erase.outerChain) name arity := by
  have hchain : Chain.erase locals ++ world.erase.outerChain =
      (locals ++ world.outerChain).map fun frame => frame.map Slot.erase Routine.erase := by
    rw [List.map_append]
    rfl
  rw [hchain, Chain.lookupFunction, Chain.lookupFunction, Chain.findFunction?_map]
  cases Chain.findFunction? (locals ++ world.outerChain) name arity <;> rfl

theorem erases_findVariable {place : Place} {node : Node} {name : String} :
    Erases Slot.erase (findVariable place node name)
      (BlockScript.Run.findVariable (Chain.erase place.locals) name) := by
  apply erases_get (l := fun world => BlockScript.Run.ofScope
    (Chain.lookupVariable (Chain.erase place.locals ++ world.outerChain) name))
  intro world
  rw [← bind_pure (BlockScript.Run.ofScope _)]
  apply erases_bind (erases_ofScope (erase_lookupVariable place.locals world name))
  intro slot
  exact erases_report (erases_pure rfl)

theorem erases_findFunction {place : Place} {name : String} {arity : Nat} :
    Erases Routine.erase (findFunction place name arity)
      (BlockScript.Run.findFunction (Chain.erase place.locals) name arity) := by
  apply erases_get (l := fun world => BlockScript.Run.ofScope
    (Chain.lookupFunction (Chain.erase place.locals ++ world.outerChain) name arity))
  intro world
  exact erases_ofScope (erase_lookupFunction place.locals world name arity)

theorem erases_define {locals : Chain} {name : String} {slot : Slot} :
    Erases Chain.erase (define locals name slot)
      (BlockScript.Run.define (Chain.erase locals) name slot.erase) := by
  cases locals with
  | nil =>
    apply erases_get
    intro world
    apply erases_bind (erases_ofScope Frame.defineVariable_map.symm)
    intro top
    exact fun _ => rfl
  | cons inner outer =>
    apply erases_bind (erases_ofScope Frame.defineVariable_map.symm)
    intro inner
    exact erases_pure rfl

theorem erases_assign {locals : Chain} {name : String} {value : Value} :
    Erases Chain.erase (assign locals name value)
      (BlockScript.Run.assign (Chain.erase locals) name value) := by
  unfold assign BlockScript.Run.assign
  have hfind : Chain.findVariable? (Chain.erase locals) name =
      (Chain.findVariable? locals name).map Slot.erase :=
    Chain.findVariable?_map
  rw [hfind, Option.isSome_map]
  -- a local variable is changed in its frame, any other one in the top frame
  by_cases hlocal : (Chain.findVariable? locals name).isSome = true
  · rw [if_pos hlocal, if_pos hlocal]
    apply erases_pure
    symm
    apply Chain.updateVariable_map
    exact fun _ => rfl
  · rw [if_neg hlocal, if_neg hlocal]
    refine erases_bind (erases_modify fun world => ?_) fun _ => erases_pure rfl
    simp only [World.erase]
    congr 1
    symm
    apply Frame.updateVariable_map
    exact fun _ => rfl

theorem erases_declare {place : Place} {name : String} {slot : Slot} :
    Erases Chain.erase (declare place name slot)
      (BlockScript.Run.define (Chain.erase place.locals) name slot.erase) := by
  rw [← bind_pure (BlockScript.Run.define _ _ _)]
  apply erases_bind erases_define
  intro locals
  exact erases_report (erases_pure rfl)

theorem erases_bindParameters {entry : Nat} {parameters : List String} :
    ∀ {arguments : List Value} {bindings : List Binding} {locals : Chain},
      Erases Chain.erase (bindParameters entry parameters arguments bindings locals)
        (BlockScript.bindParameters parameters arguments (Chain.erase locals)) := by
  induction parameters with
  | nil =>
    intro arguments bindings locals
    exact erases_pure rfl
  | cons parameter parameters ih =>
    intro arguments bindings locals
    cases arguments with
    | nil => exact erases_pure rfl
    | cons argument arguments =>
      apply erases_bind erases_define
      intro locals
      exact ih

/-! ### Expressions and statements -/

/-- An outcome as runs give it that are not watched. -/
def eraseOutcome (outcome : Option Value × Chain) : Option Value × DynamicChain :=
  (outcome.1, Chain.erase outcome.2)

theorem erases_inside {place : Place} {block : Place → Run (Option Value × Chain)}
    {plain : BlockScript.Run (Option Value × DynamicChain)}
    (h : ∀ entry, Erases eraseOutcome (block (place.enter entry)) plain) :
    Erases eraseOutcome (inside place block)
      (plain >>= fun outcome => pure (outcome.1, outcome.2.tail)) := by
  apply erases_withEntry
  intro entry
  apply erases_bind (h entry)
  intro outcome
  apply erases_pure
  -- leaving the block drops the innermost frame on both sides
  simp [eraseOutcome, Chain.erase]

theorem erases_inside_bind {place : Place} {block : Place → Run (Option Value × Chain)}
    {plain : BlockScript.Run (Option Value × DynamicChain)} {g : γ → δ}
    {k : Option Value × Chain → Run γ} {l : Option Value × DynamicChain → BlockScript.Run δ}
    (h : ∀ entry, Erases eraseOutcome (block (place.enter entry)) plain)
    (hnext : ∀ outcome, Erases g (k outcome) (l (eraseOutcome outcome))) :
    Erases g (inside place block >>= k)
      (plain >>= fun outcome => l (outcome.1, outcome.2.tail)) := by
  have hbind := erases_bind (erases_inside h) hnext
  simpa only [bind_assoc, pure_bind] using hbind

/-- Expressions do with some fuel what they do when they are not watched. -/
def EvaluatesAlike (fuel : Nat) : Prop :=
  ∀ (place : Place) (node : Node),
    Erases id (evaluate fuel place node)
      (BlockScript.evaluate fuel (Chain.erase place.locals) node)

section

variable {fuel : Nat} {place : Place} {node : Node}

theorem erases_condition {condition : Node} {f : α → β} {next : Bool → Run α}
    {next' : Bool → BlockScript.Run β} (hevaluate : EvaluatesAlike fuel)
    (hnext : ∀ holds, Erases f (next holds) (next' holds)) :
    Erases f
      (do
        let chosen ← evaluate fuel place condition
        next (← perform place node (BlockScript.Run.requireBoolean chosen)))
      (do
        next' (← BlockScript.Run.requireBoolean
          (← BlockScript.evaluate fuel (Chain.erase place.locals) condition))) := by
  apply erases_bind (hevaluate place condition)
  intro chosen
  apply erases_bind (erases_perform (leavesTop_requireBoolean chosen))
  intro holds
  exact hnext holds

theorem erases_index {name : String} {slot : Slot} {offset : Node} {f : α → β}
    {next : Nat → Nat → Run α} {next' : Nat → Nat → BlockScript.Run β}
    (hevaluate : EvaluatesAlike fuel)
    (hnext : ∀ handle index, Erases f (next handle index) (next' handle index)) :
    Erases f
      (do
        let handle ← perform place node (BlockScript.Run.requireList name slot.erase)
        let position ← evaluate fuel place offset
        let index ← perform place node (BlockScript.Run.requireOffset handle position)
        next handle index)
      (do
        let handle ← BlockScript.Run.requireList name slot.erase
        let index ← BlockScript.Run.requireOffset handle
          (← BlockScript.evaluate fuel (Chain.erase place.locals) offset)
        next' handle index) := by
  apply erases_bind (erases_perform (leavesTop_requireList name slot.erase))
  intro handle
  apply erases_bind (hevaluate place offset)
  intro position
  apply erases_bind (erases_perform (leavesTop_requireOffset handle position))
  intro index
  exact hnext handle index

theorem erases_binary {symbol : String} {left right : Node} {type : Option Ty}
    (hevaluate : EvaluatesAlike fuel) :
    Erases id (evaluate (fuel + 1) place (.binary symbol left right type))
      (BlockScript.evaluate (fuel + 1) (Chain.erase place.locals)
        (.binary symbol left right type)) := by
  have hright : Erases id
      (do
        let second ← evaluate fuel place right
        return Value.scalar (.boolean (← perform place (.binary symbol left right type)
          (BlockScript.Run.requireBoolean second))))
      (do return Value.scalar (.boolean (← BlockScript.Run.requireBoolean
        (← BlockScript.evaluate fuel (Chain.erase place.locals) right)))) :=
    erases_condition hevaluate fun _ => erases_pure rfl
  apply erases_evaluating
  apply erases_bind (hevaluate place left)
  intro first
  apply erases_ite
  · apply erases_bind (erases_perform (leavesTop_requireBoolean first))
    intro holds
    exact erases_ite hright (erases_pure rfl)
  apply erases_ite
  · apply erases_bind (erases_perform (leavesTop_requireBoolean first))
    intro holds
    exact erases_ite (erases_pure rfl) hright
  -- any other operator
  apply erases_bind (hevaluate place right)
  intro second
  exact erases_perform (leavesTop_applyToValues symbol first second)

theorem erases_assignment {name : String} {offset value : Node} {type : Option Ty}
    {binding : Option Binding} (hevaluate : EvaluatesAlike fuel) :
    Erases eraseOutcome
      (execute (fuel + 1) place (.assignment (.access name offset type binding) value))
      (BlockScript.execute (fuel + 1) (Chain.erase place.locals)
        (.assignment (.access name offset type binding) value)) := by
  apply erases_bind (hevaluate place value)
  intro result
  apply erases_bind erases_findVariable
  intro slot
  apply erases_ite
  · apply erases_ite _ erases_throw
    apply erases_bind erases_assign
    intro locals
    apply erases_report
    exact erases_pure rfl
  · apply erases_index hevaluate
    intro handle index
    apply erases_bind (erases_perform (leavesTop_writeItem handle index result))
    intro _
    apply erases_report
    exact erases_pure rfl

/-- Whether a case is chosen is found out in the same way. -/
theorem erases_matched {value : Node} {chosen : Value} {f : α → β} {next : Bool → Run α}
    {next' : Bool → BlockScript.Run β} (hevaluate : EvaluatesAlike fuel)
    (hnext : ∀ matched, Erases f (next matched) (next' matched)) :
    Erases f
      (do
        let matched ← if value.isNull then pure true else do
          let found ← evaluate fuel place value
          let world ← get
          pure ((world.erase.datum found).same (world.erase.datum chosen))
        next matched)
      (do
        let matched ← if value.isNull then pure true else do
          let found ← BlockScript.evaluate fuel (Chain.erase place.locals) value
          let world ← get
          pure ((world.datum found).same (world.datum chosen))
        next' matched) := by
  apply erases_ite
  · exact hnext true
  · apply erases_bind (hevaluate place value)
    intro found
    apply erases_get
    intro world
    exact hnext _

end

mutual

theorem erases_evaluate : ∀ (fuel : Nat) (place : Place) (node : Node),
    Erases id (evaluate fuel place node)
      (BlockScript.evaluate fuel (Chain.erase place.locals) node)
  | 0, _, _ => erases_throw
  | fuel + 1, place, node => by
    cases node with
    | literal value _ => exact erases_evaluating (erases_pure rfl)
    | group inner _ => exact erases_evaluating (erases_evaluate fuel place inner)
    | binary symbol left right type => exact erases_binary (erases_evaluate fuel)
    | access name offset _ _ =>
      apply erases_evaluating
      apply erases_bind erases_findVariable
      intro slot
      apply erases_ite (erases_pure rfl)
      apply erases_index (erases_evaluate fuel)
      intro handle index
      exact erases_perform (leavesTop_readItem handle index)
    | call name arguments _ _ =>
      apply erases_evaluating
      apply erases_bind (erases_evaluateAll fuel place arguments)
      intro values
      apply erases_bind erases_findFunction
      intro routine
      apply erases_report
      apply erases_bind erases_note
      intro _
      exact erases_invoke fuel place routine values
    | listLiteral values _ =>
      apply erases_evaluating
      apply erases_bind (erases_evaluateAll fuel place values)
      intro items
      exact erases_perform (leavesTop_allocate items)
    | _ => exact erases_evaluating erases_throw

theorem erases_evaluateAll : ∀ (fuel : Nat) (place : Place) (nodes : List Node),
    Erases id (evaluateAll fuel place nodes)
      (BlockScript.evaluateAll fuel (Chain.erase place.locals) nodes)
  | 0, _, _ => erases_throw
  | _ + 1, _, [] => erases_pure rfl
  | fuel + 1, place, node :: rest => by
    apply erases_bind (erases_evaluate fuel place node)
    intro first
    apply erases_bind (erases_evaluateAll fuel place rest)
    intro others
    exact erases_pure rfl

theorem erases_invoke : ∀ (fuel : Nat) (place : Place) (routine : Routine)
    (arguments : List Value),
    Erases id (invoke fuel place routine arguments)
      (BlockScript.invoke fuel routine.erase arguments)
  | 0, _, _, _ => erases_throw
  | fuel + 1, place, .print, [] => erases_throw
  | fuel + 1, place, .print, argument :: _ => by
    refine erases_bind (erases_perform (leavesTop_modify fun _ => ?_)) fun _ => ?_
    · rfl
    · exact erases_pure rfl
  | fuel + 1, place, .defined name parameters body signature bindings, arguments => by
    apply erases_ite _ erases_throw
    apply erases_withEntry
    intro entry
    apply erases_bind erases_bindParameters
    intro locals
    apply erases_report
    apply erases_bind (erases_executeBlock fuel (place.call entry locals) body)
    intro outcome
    obtain ⟨_ | result, behind⟩ := outcome
    · exact erases_pure rfl
    · apply erases_bind erases_note
      intro _
      exact erases_pure rfl

theorem erases_execute : ∀ (fuel : Nat) (place : Place) (node : Node),
    Erases eraseOutcome (execute fuel place node)
      (BlockScript.execute fuel (Chain.erase place.locals) node)
  | 0, _, _ => erases_throw
  | fuel + 1, place, node => by
    cases node with
    | discard expression =>
      apply erases_bind (erases_evaluate fuel place expression)
      intro _
      exact erases_pure rfl
    | declaration name _ value binding =>
      apply erases_ite_bind (erases_pure rfl) (erases_evaluate fuel place value)
      intro initial
      apply erases_bind erases_declare
      intro locals
      apply erases_bind erases_note
      intro _
      exact erases_pure rfl
    | assignment receiver value =>
      cases receiver with
      | access name offset _ _ => exact erases_assignment (erases_evaluate fuel)
      | _ =>
        apply erases_bind (erases_evaluate fuel place value)
        intro result
        exact erases_throw
    | branch condition thenBody elseBody =>
      apply erases_condition (erases_evaluate fuel)
      intro holds
      apply erases_bind erases_note
      intro _
      apply erases_inside
      intro entry
      exact erases_executeBlock fuel (place.enter entry) _
    | switch condition cases =>
      apply erases_bind (erases_evaluate fuel place condition)
      intro chosen
      exact erases_executeCases fuel place chosen cases
    | loop condition body => exact erases_executeLoop fuel place condition body
    | ret value =>
      apply erases_bind (erases_evaluate fuel place value)
      intro result
      exact erases_pure rfl
    | _ => exact erases_throw

theorem erases_executeBlock : ∀ (fuel : Nat) (place : Place) (nodes : List Node),
    Erases eraseOutcome (executeBlock fuel place nodes)
      (BlockScript.executeBlock fuel (Chain.erase place.locals) nodes)
  | 0, _, _ => erases_throw
  | _ + 1, _, [] => erases_pure rfl
  | fuel + 1, place, statement :: rest => by
    apply erases_bind (erases_execute fuel place statement)
    intro outcome
    obtain ⟨_ | result, locals⟩ := outcome
    · exact erases_executeBlock fuel { place with locals } rest
    · exact erases_pure rfl

theorem erases_executeCases : ∀ (fuel : Nat) (place : Place) (chosen : Value)
    (nodes : List Node),
    Erases eraseOutcome (executeCases fuel place chosen nodes)
      (BlockScript.executeCases fuel (Chain.erase place.locals) chosen nodes)
  | 0, _, _, _ => erases_throw
  | _ + 1, _, _, [] => erases_pure rfl
  | fuel + 1, place, chosen, node :: rest => by
    cases node with
    | case value body =>
      apply erases_matched (erases_evaluate fuel)
      intro matched
      apply erases_ite _ (erases_executeCases fuel place chosen rest)
      apply erases_inside
      intro entry
      exact erases_executeBlock fuel (place.enter entry) body
    | declaration | assignment | ret | global =>
      apply erases_matched (erases_evaluate fuel)
      intro matched
      exact erases_ite erases_throw (erases_executeCases fuel place chosen rest)
    | _ => exact erases_throw

theorem erases_executeLoop : ∀ (fuel : Nat) (place : Place) (condition : Node)
    (body : List Node),
    Erases eraseOutcome (executeLoop fuel place condition body)
      (BlockScript.executeLoop fuel (Chain.erase place.locals) condition body)
  | 0, _, _, _ => erases_throw
  | fuel + 1, place, condition, body => by
    apply erases_condition (erases_evaluate fuel)
    intro holds
    apply erases_ite _ (erases_pure rfl)
    -- the plain loop drops the frame in each of its two ways on
    apply erases_inside_bind (l := fun outcome =>
      match outcome.1 with
      | some result => pure (some result, outcome.2)
      | none => BlockScript.executeLoop fuel outcome.2 condition body)
    · intro entry
      exact erases_executeBlock fuel (place.enter entry) body
    · intro outcome
      obtain ⟨_ | result, locals⟩ := outcome
      · exact erases_executeLoop fuel { place with locals } condition body
      · exact erases_pure rfl

end

/-! ### Programs -/

theorem erases_executeGlobal (fuel : Nat) (node : Node) :
    Erases id (executeGlobal fuel node) (BlockScript.executeGlobal fuel node) := by
  cases node with
  | global name mutable typeName value isList binding =>
    apply erases_ite_bind (erases_pure rfl) (erases_evaluate fuel .outermost value)
    intro initial
    apply erases_bind erases_declare
    intro _
    exact erases_note
  | declaration | assignment | ret | case =>
    apply erases_ite_bind (erases_pure rfl) (erases_evaluate fuel .outermost _)
    intro _
    exact erases_throw
  | _ => exact erases_throw

theorem erases_forM {f : Node → Run Unit} {g : Node → BlockScript.Run Unit}
    (h : ∀ node, Erases id (f node) (g node)) (nodes : List Node) :
    Erases id (nodes.forM f) (nodes.forM g) := by
  induction nodes with
  | nil => exact erases_pure rfl
  | cons node rest ih =>
    apply erases_bind (h node)
    intro _
    exact ih

theorem erases_defineFunction (node : Node) (bindings : List Binding) :
    Erases id (defineFunction node bindings) (BlockScript.defineFunction node) := by
  cases node with
  | function name parameters parameterTypes resultType body signature =>
    apply erases_get
    intro world
    apply erases_bind (erases_ofScope Frame.defineFunction_map.symm)
    intro top
    exact fun _ => rfl
  | _ => exact erases_throw

theorem erases_defineFunctions (nodes : List Node) :
    ∀ bindings, Erases id (defineFunctions nodes bindings)
      (nodes.forM BlockScript.defineFunction) := by
  induction nodes with
  | nil => exact fun _ => erases_pure rfl
  | cons node rest ih =>
    intro bindings
    apply erases_bind (erases_defineFunction node (bindings.headD []))
    intro _
    exact ih bindings.tail

theorem erases_callByName (fuel : Nat) (name : String) (arity : Nat) (arguments : List Value) :
    Erases id (callByName fuel name arity arguments)
      (BlockScript.callByName fuel name arity arguments) := by
  apply erases_bind erases_findFunction
  intro routine
  exact erases_invoke fuel .outermost routine arguments

/-- A watched run does what the run does that is not watched. -/
theorem erases_runProgram (fuel : Nat) (bindings : List (List Binding)) (node : Node) :
    Erases id (runProgram fuel bindings node) (BlockScript.runProgram fuel node) := by
  cases node with
  | program globals functions =>
    apply erases_bind erases_note
    intro _
    apply erases_bind (erases_forM (erases_executeGlobal fuel) globals)
    intro _
    apply erases_bind (erases_defineFunctions functions bindings)
    intro _
    apply erases_bind (erases_callByName fuel "main" 0 [])
    intro result
    apply erases_bind erases_note
    intro _
    exact erases_pure rfl
  | _ => exact erases_throw

end Watched

end BlockScript

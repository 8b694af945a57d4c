import BlockScript.Evaluation.Interpreter
import BlockScript.Proofs.Scope
/-!
# Runs on scopes that can be changed

A run passes the frames of blocks and calls along, so that a statement gets the frames that it sees
and no others. Here the frames stand side by side in one store: a block or a call is given the
number of a new scope, every scope that was made stays where it is, and a step could change any of
them. A run on scopes is a run all the same (`BlockScript.Proofs.Scoped.Agreement`); that it changes
the scopes it may change and no others is a fact about it (`BlockScript.Proofs.Scoped.Frame`).

## Main definitions

* `Scoped.Place` — the top scope, or a local scope by number
* `Scoped.State` — the state of a run, with all scopes that were made
* `Scoped.Run` — computations on it

## Main results

* `Scoped.State.path_opened_self` — a new scope sees what the scope around it sees
* `Scoped.State.findVariable?_owner` — a name means the variable of its owner
-/

namespace BlockScript

namespace Scoped

/-- A scope of a run: the top scope (`none`), or a local scope by its number. -/
abbrev Place : Type := Option Nat

/-- The state of a run, with all scopes that were made. -/
structure State where
  /-- The top frame, the lists and the output. -/
  world : World
  /-- The local scopes; one without a parent stands directly inside the top scope. -/
  scopes : Store Slot Routine

namespace State

/-- Whether a scope was made already. -/
def Has (σ : State) : Place → Prop
  | none => True
  | some id => id < σ.scopes.entries.size

/-- The frame of a scope. -/
def frame (σ : State) : Place → DynamicFrame
  | none => σ.world.top
  | some id => σ.scopes.frame id

/-- The scopes that a scope sees, from itself outwards up to the top scope. -/
def path (σ : State) : Place → List Place
  | none => [none]
  | some id => (σ.scopes.path id).map some ++ [none]

/-- The local frames that a scope sees. -/
def locals (σ : State) : Place → DynamicChain
  | none => []
  | some id => σ.scopes.chain id

/-- The scope that a name of a variable is found in; the top scope if no local one has it. -/
def owner (σ : State) (place : Place) (name : String) : Place :=
  place.bind fun id => σ.scopes.owner? id name

/-- The state with another frame for a scope. -/
def setFrame (σ : State) (place : Place) (frame : DynamicFrame) : State :=
  match place with
  | none => { σ with world := { σ.world with top := frame } }
  | some id => { σ with scopes := σ.scopes.setFrame id frame }

/-- The number of the scope that is made next. -/
def next (σ : State) : Nat :=
  σ.scopes.entries.size

/-- The state with a new scope inside another one. -/
def opened (σ : State) (place : Place) : State :=
  { σ with scopes := (σ.scopes.add place {}).1 }

end State

/-- Computations that change the state and can fail; what was done before a failure stays. -/
abbrev Run : Type → Type := EStateM Failure State

namespace Run

/-- A computation that does without local scopes. -/
def lift {α : Type} (x : BlockScript.Run α) : Run α := fun σ =>
  match x σ.world with
  | .ok a world => .ok a { σ with world }
  | .error failure world => .error failure { σ with world }

/-- The variable that a name means in a scope. -/
def findVariable (place : Place) (name : String) : Run Slot := do
  let σ ← get
  lift (BlockScript.Run.ofScope (Chain.lookupVariable (σ.locals place ++ σ.world.outerChain) name))

/-- The function that a name and arity mean in a scope. -/
def findFunction (place : Place) (name : String) (arity : Nat) : Run Routine := do
  let σ ← get
  lift (BlockScript.Run.ofScope
    (Chain.lookupFunction (σ.locals place ++ σ.world.outerChain) name arity))

/-- Defines a variable in a scope. -/
def define (place : Place) (name : String) (slot : Slot) : Run Unit := do
  let σ ← get
  let frame ← lift (BlockScript.Run.ofScope ((σ.frame place).defineVariable name slot))
  set (σ.setFrame place frame)

/-- Puts a value into the variable that a name means in a scope. -/
def assign (place : Place) (name : String) (value : Value) : Run Unit :=
  modify fun σ =>
    σ.setFrame (σ.owner place name)
      ((σ.frame (σ.owner place name)).updateVariable name fun slot => { slot with value })

/-- Carries a computation out in a new scope inside another one. -/
def inside {α : Type} (place : Place) (block : Place → Run α) : Run α := do
  let σ ← get
  set (σ.opened place)
  block (some σ.next)

end Run

/-! ### Computations with a state -/

section

variable {ε σ α β : Type}

theorem bind_apply (x : EStateM ε σ α) (k : α → EStateM ε σ β) (s : σ) :
    (x >>= k) s =
      match x s with
      | .ok a after => k a after
      | .error e after => .error e after := by
  simp only [bind, EStateM.bind]
  cases x s <;> rfl

theorem get_bind_apply (k : σ → EStateM ε σ α) (s : σ) : (get >>= k) s = k s s :=
  rfl

/-- The state that a result leaves behind. -/
def behind : EStateM.Result ε σ α → σ
  | .ok _ after => after
  | .error _ after => after

theorem behind_bind (x : EStateM ε σ α) (k : α → EStateM ε σ β) (s : σ) :
    behind ((x >>= k) s) =
      match x s with
      | .ok a after => behind (k a after)
      | .error _ after => after := by
  rw [bind_apply]
  cases x s <;> rfl

end

/-! ### Changes of one frame -/

namespace State

variable {σ : State} {place p : Place} {frame : DynamicFrame} {name : String}

theorem has_none : σ.Has none :=
  trivial

theorem self_mem_path : place ∈ σ.path place := by
  cases place with
  | none => exact List.mem_singleton_self _
  | some id => simp [path, Store.self_mem_path]

theorem none_mem_path : none ∈ σ.path place := by
  cases place <;> simp [path]

/-- A scope that is seen was made. -/
theorem has_of_mem_path (h : p ∈ σ.path place) (hplace : σ.Has place) : σ.Has p := by
  cases p with
  | none => trivial
  | some q =>
    cases place with
    | none => simp [path] at h
    | some id =>
      have hq : q ∈ σ.scopes.path id := by simpa [path] using h
      exact (Store.le_of_mem_path hq).trans_lt hplace

@[simp]
theorem next_setFrame : (σ.setFrame place frame).next = σ.next := by
  cases place <;> simp [setFrame, next]

@[simp]
theorem heap_setFrame : (σ.setFrame place frame).world.heap = σ.world.heap := by
  cases place <;> rfl

theorem parent?_setFrame {id : Nat} :
    (σ.setFrame place frame).scopes.parent? id = σ.scopes.parent? id := by
  cases place <;> simp [setFrame]

theorem frame_setFrame_self (h : σ.Has place) : (σ.setFrame place frame).frame place = frame := by
  cases place with
  | none => rfl
  | some id => exact Store.frame_setFrame_self h

theorem frame_setFrame_of_ne (h : p ≠ place) :
    (σ.setFrame place frame).frame p = σ.frame p := by
  cases place with
  | none =>
    cases p with
    | none => exact absurd rfl h
    | some q => rfl
  | some id =>
    cases p with
    | none => rfl
    | some q => exact Store.frame_setFrame_of_ne fun hq => h (congrArg some hq)

/-! ### Scopes in a state -/

/-- The local frames are those of the scopes that are seen, up to the top scope. -/
theorem locals_eq_map_path : σ.locals place = (σ.path place).dropLast.map σ.frame := by
  cases place with
  | none => rfl
  | some id =>
    rw [path, List.dropLast_concat, List.map_map]
    rfl

theorem ne_none_of_mem_dropLast (h : p ∈ (σ.path place).dropLast) : p ≠ none := by
  rintro rfl
  cases place <;> simp [path] at h

/-- A scope whose path goes on with that of another one sees its own frame in front. -/
theorem locals_eq_cons {inner : Place} (h : σ.path inner = inner :: σ.path place) :
    σ.locals inner = σ.frame inner :: σ.locals place := by
  have hne : σ.path place ≠ [] := List.ne_nil_of_mem self_mem_path
  rw [locals_eq_map_path, locals_eq_map_path, h, List.dropLast_cons_of_ne_nil hne, List.map_cons]

/-- A scope sees the same scopes if parents are the same. -/
theorem path_congr {after : State} (hplace : σ.Has place)
    (h : ∀ id < σ.next, after.scopes.parent? id = σ.scopes.parent? id) :
    after.path place = σ.path place := by
  cases place with
  | none => rfl
  | some id =>
    rw [path, path, Store.path_congr fun q hq => h q (hq.trans_lt hplace)]

theorem next_opened : (σ.opened place).next = σ.next + 1 := by
  simp [opened, next, Store.add]

theorem has_opened (h : σ.Has p) : (σ.opened place).Has p := by
  cases p with
  | none => trivial
  | some q =>
    have hq : q < (σ.opened place).next := by
      rw [next_opened]
      exact Nat.lt_succ_of_lt h
    exact hq

theorem has_opened_self : (σ.opened place).Has (some σ.next) := by
  simp [Has, opened, next, Store.add]

theorem ne_next (h : σ.Has p) : p ≠ some σ.next := by
  rintro rfl
  exact lt_irrefl _ h

theorem parent?_opened {id : Nat} (h : id < σ.next) :
    (σ.opened place).scopes.parent? id = σ.scopes.parent? id :=
  Store.parent?_add_of_lt h

/-- A new scope has an empty frame, as it had before it was made. -/
theorem frame_opened : (σ.opened place).frame p = σ.frame p := by
  cases p with
  | none => rfl
  | some q =>
    by_cases hq : q = σ.next
    · subst hq
      exact Store.frame_add_self.trans (Store.frame_of_size_le le_rfl).symm
    · exact Store.frame_add_of_ne hq

/-- A new scope sees what the scope around it sees. -/
theorem path_opened_self (h : σ.Has place) :
    (σ.opened place).path (some σ.next) = some σ.next :: σ.path place := by
  cases place with
  | none => exact congrArg (fun ids => ids.map some ++ [none]) Store.path_add_self_of_none
  | some id => exact congrArg (fun ids => ids.map some ++ [none]) (Store.path_add_self h)

/-- The frames of a new scope are an empty one and those around it. -/
theorem locals_opened_self (h : σ.Has place) :
    (σ.opened place).locals (some σ.next) = {} :: σ.locals place := by
  have hpath : (σ.opened place).path place = σ.path place :=
    path_congr h fun _ hid => parent?_opened hid
  have hself : (σ.opened place).frame (some σ.next) = {} :=
    frame_opened.trans (Store.frame_of_size_le le_rfl)
  have hframe : (σ.opened place).frame = σ.frame := funext fun _ => frame_opened
  rw [locals_eq_cons ((path_opened_self h).trans (congrArg _ hpath.symm)), hself,
    locals_eq_map_path, hpath, hframe, ← locals_eq_map_path]

/-! ### Where a name is found -/

theorem owner_mem_path : σ.owner place name ∈ σ.path place := by
  cases place with
  | none => exact List.mem_singleton_self _
  | some id =>
    cases h : σ.scopes.owner? id name with
    | none => simp [owner, path, h]
    | some q => simp [owner, path, h, Store.mem_path_of_owner? h]

/-- A name means the variable of its owner. -/
theorem findVariable?_owner :
    Chain.findVariable? (σ.locals place ++ σ.world.outerChain) name =
      (σ.frame (σ.owner place name)).findVariable? name := by
  have htop : Chain.findVariable? σ.world.outerChain name = σ.world.top.findVariable? name := by
    rw [World.outerChain, Chain.findVariable?_cons]
    exact Option.or_none
  rw [Chain.findVariable?_append, htop]
  cases place with
  | none => rfl
  | some id =>
    cases h : σ.scopes.owner? id name with
    | none => simp [owner, locals, frame, h, Store.owner?_eq_none_iff.mp h]
    | some q =>
      have hq : (σ.scopes.frame q).findVariable? name ≠ none := by
        intro hnone
        simpa [hnone] using List.find?_some h
      obtain ⟨slot, hslot⟩ := Option.ne_none_iff_exists'.mp hq
      simp [owner, locals, frame, h, Store.findVariable?_of_owner? h, hslot]

end State

end Scoped

end BlockScript

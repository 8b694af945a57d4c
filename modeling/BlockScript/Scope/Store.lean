import BlockScript.Scope
/-!
# Stores of scopes

Scopes that live side by side, each with at most one parent made before it. A store keeps the
frames by number; the frames from a scope outwards form its chain, and names mean in a scope what
they mean in that chain. Definitions go into the scope's own frame, and a change of a variable goes
to the frame where the name was found, so that every scope that sees this frame sees the change.

## Main definitions

* `Store` — frames with their parents
* `Store.path`, `Store.chain` — the scopes that a scope sees
* `Store.add` — a new scope
* `Store.defineVariable`, `Store.defineFunction`, `Store.updateVariable` — changes of the tables
-/

namespace BlockScript

/-- A frame together with the number of its parent. -/
structure Store.Entry (V F : Type) where
  /-- The scope around this one. -/
  parent : Option Nat
  /-- The scope's own tables. -/
  frame : Frame V F
  deriving Repr, Inhabited

/-- Scopes by number, in the order of creation. -/
structure Store (V F : Type) where
  /-- The scopes made so far. -/
  entries : Array (Store.Entry V F) := #[]
  deriving Repr, Inhabited

namespace Store

variable {V F : Type}

/-- The frame of a scope; a number that is not in use has an empty one. -/
def frame (store : Store V F) (id : Nat) : Frame V F :=
  match store.entries[id]? with
  | some entry => entry.frame
  | none => {}

/-- The parent of a scope, if it was made before the scope. -/
def parent? (store : Store V F) (id : Nat) : Option { p : Nat // p < id } :=
  match store.entries[id]? with
  | some { parent := some p, .. } => if h : p < id then some ⟨p, h⟩ else none
  | _ => none

/-- The numbers of the scopes that a scope sees, from itself outwards. -/
def path (store : Store V F) (id : Nat) : List Nat :=
  match store.parent? id with
  | some ⟨p, _⟩ => id :: path store p
  | none => [id]
termination_by id

/-- The frames that a scope sees, its own first. -/
def chain (store : Store V F) (id : Nat) : Chain V F :=
  (store.path id).map store.frame

/-- The store with one more scope, and the number of the new scope. -/
def add (store : Store V F) (parent : Option Nat) (frame : Frame V F) : Store V F × Nat :=
  ({ entries := store.entries.push { parent, frame } }, store.entries.size)

/-- The store with another frame for a scope. -/
def setFrame (store : Store V F) (id : Nat) (frame : Frame V F) : Store V F :=
  { entries := store.entries.modify id fun entry => { entry with frame } }

/-- The store with one more variable in a scope's own frame. -/
def defineVariable (store : Store V F) (id : Nat) (name : String) (v : V) :
    Except ScopeError (Store V F) :=
  ((store.frame id).defineVariable name v).map (store.setFrame id)

/-- The store with one more function in a scope's own frame. -/
def defineFunction (store : Store V F) (id : Nat) (name : String) (arity : Nat) (f : F) :
    Except ScopeError (Store V F) :=
  ((store.frame id).defineFunction name arity f).map (store.setFrame id)

/-- The variable that a name means in a scope. -/
def lookupVariable (store : Store V F) (id : Nat) (name : String) : Except ScopeError V :=
  (store.chain id).lookupVariable name

/-- The function that a name and arity mean in a scope. -/
def lookupFunction (store : Store V F) (id : Nat) (name : String) (arity : Nat) :
    Except ScopeError F :=
  (store.chain id).lookupFunction name arity

/-- The scope that a name of a variable is found in, from a scope outwards. -/
def owner? (store : Store V F) (id : Nat) (name : String) : Option Nat :=
  (store.path id).find? fun p => ((store.frame p).findVariable? name).isSome

/-- The store with `change` applied to the variable that a name means in a scope. -/
def updateVariable (store : Store V F) (id : Nat) (name : String) (change : V → V) :
    Except ScopeError (Store V F) :=
  match store.owner? id name with
  | some p => .ok (store.setFrame p ((store.frame p).updateVariable name change))
  | none => .error (.undefinedVariable name)

end Store

end BlockScript

import BlockScript.Builtin
import BlockScript.Datum
import BlockScript.Scope.Store
/-!
# Registries

A store of scopes that is filled by hand: its variables carry everything known about them together
with a value, and its functions are `print` and functions that answer with a fixed value.

## Main definitions

* `Registry.Variable`, `Registry.Function` — the entries
* `Registry` — the store
* `Registry.addBuiltins` — a new scope that holds `print`
* `Registry.call` — the answer of a function, and what it prints
-/

namespace BlockScript

/-- A variable with everything known about it. -/
structure Registry.Variable where
  /-- The name in the language. -/
  name : String
  /-- The name in Java. -/
  javaName : String
  /-- The declared type. -/
  type : Ty
  /-- Whether assignments are allowed. -/
  mutable : Bool
  /-- Whether the variable holds a list. -/
  isList : Bool
  /-- The current value. -/
  value : Datum
  deriving Repr, Inhabited

/-- What a registered function does. -/
inductive Registry.Action where
  /-- Writes the text of its argument on a line and answers with nil. -/
  | print
  /-- Answers with a fixed value. -/
  | constant (value : Datum)
  deriving Repr, Inhabited

/-- A function with its signature and what it does. -/
structure Registry.Function where
  /-- What callers know about the function. -/
  signature : Signature
  /-- What the function does. -/
  action : Registry.Action
  deriving Repr, Inhabited

/-- A store of registered variables and functions. -/
abbrev Registry : Type := Store Registry.Variable Registry.Function

namespace Registry

/-- The frame that holds `print`. -/
def builtins : Frame Registry.Variable Registry.Function :=
  builtinFrame { signature := .print, action := .print }

/-- The registry with one more scope that holds `print`, and the number of that scope. -/
def addBuiltins (registry : Registry) : Registry × Nat :=
  registry.add none builtins

/-- Replaces the value of the variable that a name means in a scope. -/
def assign (registry : Registry) (id : Nat) (name : String) (value : Datum) :
    Except ScopeError Registry :=
  registry.updateVariable id name fun v => { v with value }

/-- The answer of the function that a name means for the given arguments, and the line that it
prints. -/
def call (registry : Registry) (id : Nat) (name : String) (arguments : List Datum) :
    Except ScopeError (Datum × Option String) := do
  let f ← registry.lookupFunction id name arguments.length
  match f.action with
  | .print => return (.scalar .nil, arguments.head?.map Datum.text)
  | .constant value => return (value, none)

end Registry

end BlockScript

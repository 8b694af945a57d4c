/-!
# Types

The types of the language form a flat order: `Any` is above every type, `Comparable` is above the
four types whose values can be ordered, and otherwise a type is below itself only.

An expression's static type is an `Option Ty`: an empty list literal without a declared element
type has none, and such an absent type is below `Any` and itself only.

## Main definitions

* `Ty` — the eight types, with their names here and in Java
* `Ty.accepts` — which types may be stored where a type is expected
* `Ty.ofName?` — the type with a given name
-/

namespace BlockScript

/-- The types that a declaration may name. -/
inductive Ty where
  | any
  | boolean
  | character
  | comparable
  | decimal
  | integer
  | nil
  | string
  deriving DecidableEq, Repr, Inhabited

namespace Ty

/-- Every type, in the order of the names. -/
def all : List Ty :=
  [any, boolean, character, comparable, decimal, integer, nil, string]

/-- The name of a type in the language. -/
def name : Ty → String
  | any => "Any"
  | boolean => "Boolean"
  | character => "Character"
  | comparable => "Comparable"
  | decimal => "Decimal"
  | integer => "Integer"
  | nil => "Nil"
  | string => "String"

/-- The Java type that a type is emitted as. -/
def javaName : Ty → String
  | any => "Object"
  | boolean => "boolean"
  | character => "char"
  | comparable => "Comparable"
  | decimal => "double"
  | integer => "int"
  | nil => "Void"
  | string => "String"

/-- The type with a given name. -/
def ofName? (text : String) : Option Ty :=
  all.find? fun t => t.name == text

/-- Whether values of the type can be ordered. -/
def isOrdered : Ty → Bool
  | integer | decimal | character | string => true
  | _ => false

/-- Whether a value of static type `source` may be stored where `target` is expected. -/
def accepts (target source : Option Ty) : Bool :=
  target == source || target == some any ||
    (target == some comparable && source.any isOrdered)

theorem ofName?_name (t : Ty) : ofName? t.name = some t := by
  cases t <;> decide

@[simp]
theorem accepts_self (t : Option Ty) : accepts t t = true := by
  simp [accepts]

@[simp]
theorem accepts_any (t : Option Ty) : accepts (some any) t = true := by
  simp [accepts]

/-- A static type as messages show it. -/
def label : Option Ty → String
  | some t => t.name
  | none => "None"

end Ty

end BlockScript

import BlockScript.Numeral.Notation
/-!
# Data

What programs compute with. A scalar is a value that a literal can denote; a datum is a scalar or
a list of data. Data are values in the mathematical sense: lists that programs share and change
are handles into a store (`BlockScript.Evaluation.World`), and a datum is what such a handle shows.

## Main definitions

* `Scalar`, `Datum` — the values
* `Kind` — the seven kinds of values, and their names
* `Datum.text` — what printing and concatenation show
* `Datum.same` — equality, structural and within one kind only
-/

namespace BlockScript

/-- A value that a literal can denote. Characters are texts of their own kind; source literals give
them one character, but decoded ones are not measured. -/
inductive Scalar where
  | nil
  | boolean (value : Bool)
  | integer (value : Int)
  | decimal (value : Decimal)
  | character (value : String)
  | string (value : String)
  deriving DecidableEq, Repr, Inhabited

/-- A scalar or a list of data. -/
inductive Datum where
  | scalar (value : Scalar)
  | list (items : List Datum)
  deriving Repr, Inhabited

/-- The kinds of values. -/
inductive Kind where
  | nil
  | boolean
  | integer
  | decimal
  | character
  | string
  | list
  deriving DecidableEq, Repr, Inhabited

namespace Kind

/-- The name of a kind in messages. -/
def name : Kind → String
  | nil => "Nil"
  | boolean => "Boolean"
  | integer => "Integer"
  | decimal => "Decimal"
  | character => "Character"
  | string => "String"
  | list => "List"

end Kind

namespace Scalar

/-- The kind of a scalar. -/
def kind : Scalar → Kind
  | nil => .nil
  | boolean _ => .boolean
  | integer _ => .integer
  | decimal _ => .decimal
  | character _ => .character
  | string _ => .string

/-- What printing a scalar shows. -/
def text : Scalar → String
  | nil => "null"
  | boolean value => if value then "true" else "false"
  | integer value => toString value
  | decimal value => value.text
  | character value => value
  | string value => value

/-- Whether two scalars are equal: of one kind, and the same there. Decimals are compared as
numbers, whatever their scales. -/
def same : Scalar → Scalar → Bool
  | nil, nil => true
  | boolean a, boolean b => a == b
  | integer a, integer b => a == b
  | decimal a, decimal b => a.order b == .eq
  | character a, character b => a == b
  | string a, string b => a == b
  | _, _ => false

end Scalar

namespace Datum

/-- The kind of a datum. -/
def kind : Datum → Kind
  | scalar value => value.kind
  | list _ => .list

mutual

/-- What printing a datum shows: lists in brackets, their items divided by commas. -/
def text : Datum → String
  | scalar value => value.text
  | list items => "[" ++ ", ".intercalate (texts items) ++ "]"

/-- What printing shows for each of several data. -/
def texts : List Datum → List String
  | [] => []
  | item :: rest => item.text :: texts rest

end

mutual

/-- Whether two data are equal: scalars as scalars, lists item by item. -/
def same : Datum → Datum → Bool
  | scalar a, scalar b => a.same b
  | list as, list bs => sameItems as bs
  | _, _ => false

/-- Whether two lists have equally many items, equal in pairs. -/
def sameItems : List Datum → List Datum → Bool
  | [], [] => true
  | a :: as, b :: bs => a.same b && sameItems as bs
  | _, _ => false

end

end Datum

end BlockScript

import BlockScript.Numeral.Double
import BlockScript.Numeral.Notation
import BlockScript.Text.Quoted
/-!
# JSON values

The values that a JSON text denotes. The members of an object keep their order, and a name may
occur twice; the last member of a name is the one that counts. Numbers without fraction and
exponent are integers; the others are kept as decimals, and stand for numbers in double precision.
The three names for numbers that are not finite are values too, because readers accept them.

## Main definitions

* `Json` — the values
* `Json.member?` — the member of an object with a given name
* `Json.truth` — the truth value that any JSON value stands for
* `Json.sequence?` — the values met when a JSON value is run through
* `Json.display` — how messages show a JSON value
* `Json.nesting` — how deep objects are nested
-/

namespace BlockScript

/-- A JSON value. -/
inductive Json where
  | null
  | boolean (value : Bool)
  | integer (value : Int)
  | real (value : Decimal)
  | special (name : String)
  | string (value : String)
  | array (items : List Json)
  | object (members : List (String × Json))
  deriving Repr, Inhabited

namespace Json

/-- The last of the members with a given name. -/
def lastMember? (name : String) (members : List (String × Json)) : Option Json :=
  members.reverse.lookup name

/-- The member of an object with a given name. -/
def member? (name : String) : Json → Option Json
  | object members => lastMember? name members
  | _ => none

/-- The truth value a JSON value stands for: null, zero and whatever is empty stand for false. -/
def truth : Json → Bool
  | null => false
  | boolean value => value
  | integer value => value != 0
  | real value => (Double.ofDecimal? value).all fun x => x.significand != 0
  | special _ => true
  | string value => !value.isEmpty
  | array items => !items.isEmpty
  | object members => !members.isEmpty

/-- The values met when a JSON value is run through: the items of an array, the characters of a
string, the names of an object. Nothing else can be run through. -/
def sequence? : Json → Option (List Json)
  | array items => some items
  | string value => some (value.toList.map fun c => string c.toString)
  | object members => some ((members.map Prod.fst).eraseDups.map string)
  | _ => none

/-- The number in double precision that a decimal stands for, as messages show it. -/
def displayReal (value : Decimal) : String :=
  let size := match Double.ofDecimal? value with
    | some x => x.text
    | none => "inf"
  if value.negative then "-" ++ size else size

mutual

/-- How messages show a JSON value inside another one: strings are quoted. -/
def displayInner : Json → String
  | null => "None"
  | boolean value => if value then "True" else "False"
  | integer value => toString value
  | real value => displayReal value
  | special name => name
  | string value => Text.quoted value
  | array items => "[" ++ ", ".intercalate (displayItems items) ++ "]"
  | object members => "\x7b" ++ ", ".intercalate (displayMembers members) ++ "\x7d"

/-- The items of an array as messages show them. -/
def displayItems : List Json → List String
  | [] => []
  | item :: rest => displayInner item :: displayItems rest

/-- The members of an object as messages show them. -/
def displayMembers : List (String × Json) → List String
  | [] => []
  | (name, value) :: rest =>
    (Text.quoted name ++ ": " ++ displayInner value) :: displayMembers rest

end

/-- How messages show a JSON value: a string as it is, anything else as it would stand inside an
array. -/
def display : Json → String
  | string value => value
  | other => displayInner other

mutual

/-- The greatest number of objects around each other inside a value; arrays do not count. -/
def nesting : Json → Nat
  | array items => nestingItems items
  | object members => nestingMembers members + 1
  | _ => 0

/-- The greatest nesting of several values. -/
def nestingItems : List Json → Nat
  | [] => 0
  | item :: rest => max item.nesting (nestingItems rest)

/-- The greatest nesting of the values of several members. -/
def nestingMembers : List (String × Json) → Nat
  | [] => 0
  | (_, value) :: rest => max value.nesting (nestingMembers rest)

end

end Json

end BlockScript

import BlockScript.Datum
import BlockScript.Json
/-!
# Scalars in JSON

A scalar is written as an object that names its kind; all but nil have a value beside it. Numbers
are written as text, because a JSON number would not keep all of their digits, and reading accepts
every numeral that `integerOfText?` and `Decimal.ofText?` accept, as long as a decimal is in range.
JSON numbers are read as well: an integer drops the fraction of one in double precision, and a
decimal takes all of its digits. A truth value is read from any JSON value, and what should be a
string may be an integer or a truth value, which it then is.

## Main definitions

* `FormatError` — why a JSON value is not the form of what was expected
* `Scalar.toJson`, `Scalar.ofJson` — writing and reading
-/

namespace BlockScript

/-- Why a JSON value is not the form of a scalar or of a tree. -/
inductive FormatError where
  /-- An object lacks a member. -/
  | missing (name : String)
  /-- No kind of node has the name shown. -/
  | unknownNode (shown : String)
  /-- No kind of literal has the name shown. -/
  | unknownLiteral (shown : String)
  /-- A node is neither null nor an object. -/
  | notANode
  /-- A value that should have members is no object. -/
  | notAnObject
  /-- A member is of a sort that cannot be used there. -/
  | unusable (name : String)
  /-- The text of an integer is none. -/
  | notAnInteger (shown : String)
  /-- The text of a decimal is none, or out of range. -/
  | notADecimal (shown : String)
  /-- The parts of a decimal are none. -/
  | notParts
  deriving DecidableEq, Repr

namespace FormatError

/-- The error in words. -/
def message : FormatError → String
  | missing name => Text.quoted name
  | unknownNode shown => "Unknown AST node type: " ++ shown
  | unknownLiteral shown => "Unknown literal kind: " ++ shown
  | notANode => "Invalid AST object"
  | notAnObject => "expected an object"
  | unusable name => "unusable " ++ name
  | notAnInteger shown => "invalid integer: " ++ Text.quoted shown
  | notADecimal shown => "invalid decimal: " ++ Text.quoted shown
  | notParts => "invalid parts of a decimal"

end FormatError

/-- The member of an object with a given name, which must be there. -/
def Json.required (name : String) (json : Json) : Except FormatError Json :=
  match json with
  | .object members =>
    match Json.lastMember? name members with
    | some value => .ok value
    | none => .error (.missing name)
  | _ => .error .notAnObject

/-- The text of the member with a given name. -/
def Json.requiredText (name : String) (json : Json) : Except FormatError String := do
  match ← json.required name with
  | .string text => return text
  | _ => .error (.unusable name)

namespace Scalar

/-- The JSON form of a scalar. -/
def toJson (scalar : Scalar) : Json :=
  let kind := ("kind", Json.string scalar.kind.name)
  match scalar with
  | nil => .object [kind]
  | boolean value => .object [kind, ("value", .boolean value)]
  | integer value => .object [kind, ("value", .string (toString value))]
  | decimal value => .object [kind, ("value", .string value.text)]
  | character value => .object [kind, ("value", .string value)]
  | string value => .object [kind, ("value", .string value)]

/-- The integer that a JSON value is, if it is an integer or a truth value. -/
def directInteger? : Json → Option Int
  | .integer value => some value
  | .boolean value => some (if value then 1 else 0)
  | _ => none

/-- The integer that a JSON value denotes: the text of one, or a number. -/
def integerOfJson : Json → Except FormatError Int
  | .string text =>
    match integerOfText? text with
    | some value => .ok value
    | none => .error (.notAnInteger text)
  | .real value =>
    match Double.ofDecimal? value with
    | some x => .ok (if value.negative then -(x.whole : Int) else x.whole)
    | none => .error (.notAnInteger (Json.displayReal value))
  | other =>
    match directInteger? other with
    | some value => .ok value
    | none => .error (.unusable "value")

/-- A decimal, as long as it is in range; `shown` is what denotes it. -/
def checkedDecimal (shown : String) (value : Decimal) : Except FormatError Decimal :=
  if value.InRange then .ok value else .error (.notADecimal shown)

/-- The decimal given by its parts: a sign that is zero or one, the digits, and the exponent. -/
def decimalOfParts? : List Json → Option Decimal
  | [sign, .array digits, exponent] => do
    let sign ← directInteger? sign
    let digits ← digits.mapM directInteger?
    let exponent ← directInteger? exponent
    guard ((sign = 0 ∨ sign = 1) ∧ ∀ digit ∈ digits, 0 ≤ digit ∧ digit ≤ 9)
    return { negative := sign = 1, coefficient := ofDigits (digits.map Int.toNat), exponent }
  | _ => none

/-- The decimal that a JSON value denotes: the text of one in range, a number, or its parts. -/
def decimalOfJson : Json → Except FormatError Decimal
  | .string text =>
    match Decimal.ofText? text with
    | some value => checkedDecimal text value
    | none => .error (.notADecimal text)
  | .real value =>
    match Double.ofDecimal? value with
    | some x => .ok (x.toDecimal value.negative)
    | none => .error (.notADecimal (Json.displayReal value))
  | .array items =>
    match decimalOfParts? items with
    | some value => checkedDecimal (Json.array items).display value
    | none => .error .notParts
  | other =>
    match directInteger? other with
    | some value => .ok (Decimal.ofSigned value 0 false)
    | none => .error (.unusable "value")

/-- The scalar that a JSON value in place of a string denotes. -/
def stringOfJson : Json → Except FormatError Scalar
  | .string text => .ok (string text)
  | .integer value => .ok (integer value)
  | .boolean value => .ok (boolean value)
  | _ => .error (.unusable "value")

/-- The scalar with the given JSON form. -/
def ofJson (json : Json) : Except FormatError Scalar := do
  let kind ← json.required "kind"
  match kind with
  | .string "Nil" => return nil
  | .string "Boolean" => return boolean (← json.required "value").truth
  | .string "Integer" => return integer (← integerOfJson (← json.required "value"))
  | .string "Decimal" => return decimal (← decimalOfJson (← json.required "value"))
  | .string "Character" => return character (← json.requiredText "value")
  | .string "String" => stringOfJson (← json.required "value")
  | other => .error (.unknownLiteral other.display)

end Scalar

end BlockScript

import BlockScript.Datum.Json
import BlockScript.Node
/-!
# Trees in JSON

A node is written as an object with a member `type` that names its kind and one member for each
part; annotations are left out. An absent node is null. The parts are read in a fixed order, depth
first, and the first one that is missing or unusable decides the error. Parts that may be absent,
such as declared types and initial values, may be missing as well as null.

A sequence of nodes is read from anything that can be run through (`Json.sequence?`).

## Main definitions

* `Node.toJson` — the JSON form of a tree
* `Node.ofJson` — the tree with a given JSON form
-/

namespace BlockScript.Node

/-- The JSON form of a name that may be absent. -/
def nameToJson : Option String → Json
  | some name => .string name
  | none => .null

/-- The JSON form of a node of a kind, with the given parts. -/
def objectOf (kind : NodeKind) (parts : List (String × Json)) : Json :=
  .object (("type", .string kind.name) :: parts)

mutual

/-- The JSON form of a tree. -/
def toJson : Node → Json
  | null => .null
  | literal value _ => objectOf .literal [("literal", value.toJson)]
  | group inner _ => objectOf .group [("expression", inner.toJson)]
  | binary symbol left right _ =>
    objectOf .binary [("operator", .string symbol), ("left", left.toJson), ("right", right.toJson)]
  | access name offset _ _ => objectOf .access [("name", .string name), ("offset", offset.toJson)]
  | call name arguments _ _ =>
    objectOf .call [("name", .string name), ("arguments", .array (allToJson arguments))]
  | listLiteral values _ => objectOf .listLiteral [("values", .array (allToJson values))]
  | discard expression => objectOf .discard [("expression", expression.toJson)]
  | declaration name typeName value _ =>
    objectOf .declaration
      [("name", .string name), ("type_name", nameToJson typeName), ("value", value.toJson)]
  | assignment receiver value =>
    objectOf .assignment [("receiver", receiver.toJson), ("value", value.toJson)]
  | branch condition thenBody elseBody =>
    objectOf .branch
      [("condition", condition.toJson), ("then_statements", .array (allToJson thenBody)),
        ("else_statements", .array (allToJson elseBody))]
  | case value body =>
    objectOf .case [("value", value.toJson), ("statements", .array (allToJson body))]
  | switch condition cases =>
    objectOf .switch [("condition", condition.toJson), ("cases", .array (allToJson cases))]
  | loop condition body =>
    objectOf .loop [("condition", condition.toJson), ("statements", .array (allToJson body))]
  | ret value => objectOf .ret [("value", value.toJson)]
  | global name mutable typeName value isList _ =>
    objectOf .global
      [("name", .string name), ("mutable", .boolean mutable), ("type_name", nameToJson typeName),
        ("value", value.toJson), ("is_list", .boolean isList)]
  | function name parameters parameterTypes resultType body _ =>
    objectOf .function
      [("name", .string name), ("parameters", .array (parameters.map Json.string)),
        ("parameter_type_names", .array (parameterTypes.map nameToJson)),
        ("return_type_name", nameToJson resultType), ("statements", .array (allToJson body))]
  | program globals functions =>
    objectOf .program
      [("globals", .array (allToJson globals)), ("functions", .array (allToJson functions))]

/-- The JSON forms of several trees. -/
def allToJson : List Node → List Json
  | [] => []
  | node :: rest => node.toJson :: allToJson rest

end

/-- The member with a given name, or null if it is missing. -/
def optionalMember (name : String) (json : Json) : Json :=
  (json.member? name).getD .null

/-- The name held by a JSON value, which may be absent. -/
def nameOfJson (member : String) : Json → Except FormatError (Option String)
  | .string text => .ok (some text)
  | .null => .ok none
  | _ => .error (.unusable member)

/-- The text held by a JSON value. -/
def textOfJson (member : String) : Json → Except FormatError String
  | .string text => .ok text
  | _ => .error (.unusable member)

/-- The values met when the JSON value of a member is run through. -/
def sequenceOf (member : String) (json : Json) : Except FormatError (List Json) :=
  match json.sequence? with
  | some items => .ok items
  | none => .error (.unusable member)

/-- The values met when a required member is run through. -/
def requiredSequence (name : String) (json : Json) : Except FormatError (List Json) := do
  sequenceOf name (← json.required name)

/-- The tree with a given JSON form. Reading a part goes one object deeper, so a bound that is no
less than the nesting of the value is never met by an object. -/
def ofJsonBounded : Nat → Json → Except FormatError Node
  | _, .null => .ok null
  | 0, _ => .error .notANode
  | bound + 1, .object members => do
    let json := Json.object members
    let part (name : String) : Except FormatError Node := do
      ofJsonBounded bound (← json.required name)
    let optionalPart (name : String) : Except FormatError Node :=
      ofJsonBounded bound (optionalMember name json)
    let parts (name : String) : Except FormatError (List Node) := do
      (← requiredSequence name json).mapM (ofJsonBounded bound)
    let shown := optionalMember "type" json
    let kind? := match shown with
      | .string text => NodeKind.ofName? text
      | _ => none
    match kind? with
    | none => .error (.unknownNode shown.display)
    | some .program => return program (← parts "globals") (← parts "functions")
    | some .global =>
      let name ← json.requiredText "name"
      let mutable := (← json.required "mutable").truth
      let typeName ← nameOfJson "type_name" (optionalMember "type_name" json)
      let value ← optionalPart "value"
      let isList := (optionalMember "is_list" json).truth
      return global name mutable typeName value isList none
    | some .function =>
      let name ← json.requiredText "name"
      let parameters ← (← requiredSequence "parameters" json).mapM (textOfJson "parameters")
      let parameterTypes ←
        (← requiredSequence "parameter_type_names" json).mapM (nameOfJson "parameter_type_names")
      let resultType ← nameOfJson "return_type_name" (optionalMember "return_type_name" json)
      return function name parameters parameterTypes resultType (← parts "statements") none
    | some .discard => return discard (← part "expression")
    | some .declaration =>
      let name ← json.requiredText "name"
      let typeName ← nameOfJson "type_name" (optionalMember "type_name" json)
      return declaration name typeName (← optionalPart "value") none
    | some .assignment => return assignment (← part "receiver") (← part "value")
    | some .branch =>
      let condition ← part "condition"
      let thenBody ← parts "then_statements"
      let elseBody ← match json.member? "else_statements" with
        | some _ => parts "else_statements"
        | none => pure []
      return branch condition thenBody elseBody
    | some .switch => return switch (← part "condition") (← parts "cases")
    | some .case => return case (← optionalPart "value") (← parts "statements")
    | some .loop => return loop (← part "condition") (← parts "statements")
    | some .ret => return ret (← part "value")
    | some .literal => return literal (← Scalar.ofJson (← json.required "literal")) none
    | some .group => return group (← part "expression") none
    | some .binary =>
      let symbol ← json.requiredText "operator"
      return binary symbol (← part "left") (← part "right") none
    | some .access =>
      let name ← json.requiredText "name"
      return access name (← optionalPart "offset") none none
    | some .call =>
      let name ← json.requiredText "name"
      return call name (← parts "arguments") none none
    | some .listLiteral => return listLiteral (← parts "values") none
  | _ + 1, _ => .error .notANode

/-- The tree with a given JSON form. -/
def ofJson (json : Json) : Except FormatError Node :=
  ofJsonBounded json.nesting json

end BlockScript.Node

import BlockScript.Analysis.Checked
import BlockScript.Analysis.Tables
/-!
# Checking expressions

Every expression gets its type, every use of a variable its binding and every call the signature of
the function called. Operands, arguments and values are checked from left to right.

## Main definitions

* `checkExpression` — an expression in given tables
* `checkArguments` — arguments against the types of parameters
* `checkValues` — the values of a list literal against its element type
-/

namespace BlockScript

mutual

/-- Checks an expression. The element type of a list literal is the one it is annotated with, or
else that of its first value that has a type. -/
def checkExpression (chain : StaticChain) : Node → Checked Node
  | .literal value _ => .done (.literal value (some value.ty))
  | .group inner type =>
    if inner.kind? = some .binary then
      (checkExpression chain inner).bind (fun inner => .group inner type) fun inner =>
        .done (.group inner inner.type?)
    else .refuse (.group inner type) .groupedNonBinary
  | .binary symbol left right type =>
    (checkExpression chain left).bind (fun left => .binary symbol left right type) fun left =>
    (checkExpression chain right).bind (fun right => .binary symbol left right type) fun right =>
    .ensure (symbolTy symbol left.type? right.type?) (.binary symbol left right type) fun ty =>
    .done (.binary symbol left right (some ty))
  | .access name offset type binding =>
    let checkedOffset := if offset.isNull then .done offset else checkExpression chain offset
    checkedOffset.bind (fun offset => .access name offset type binding) fun offset =>
    let unbound := Node.access name offset type binding
    if !offset.isNull && offset.type? != some .integer then
      .refuse unbound (.offsetNotInteger offset.type?)
    else
      .ensure (StaticChain.findVariable chain name) unbound fun found =>
      if !offset.isNull && !found.isList then .refuse unbound (.notAList name)
      else if offset.isNull && found.isList then .refuse unbound (.listWithoutOffset name)
      else .done (.access name offset found.type (some found))
  | .call name arguments type callee =>
    .ensure (StaticChain.findFunction chain name arguments.length)
      (.call name arguments type callee) fun found =>
    (checkArguments chain arguments found.parameters).bind
      (fun arguments => .call name arguments type callee) fun arguments =>
    .noted 3 ("call " ++ name ++ "/" ++ toString found.arity ++ " -> " ++ found.result.name)
      (.call name arguments (some found.result) (some found))
  | .listLiteral values type =>
    (checkValues chain values type).map fun (values, type) => .listLiteral values type
  | other => .misshapen other (.unexpected .checkExpression other.kind?)

/-- Checks arguments, each against the type of its parameter. -/
def checkArguments (chain : StaticChain) : List Node → List Ty → Checked (List Node)
  | argument :: rest, parameter :: parameters =>
    (checkExpression chain argument).bind (fun argument => argument :: rest) fun argument =>
    .ensure (requireAccepted (some parameter) argument.type?) (argument :: rest) fun _ =>
    (checkArguments chain rest parameters).map fun rest => argument :: rest
  | rest, _ => .done rest

/-- Checks the values of a list literal whose element type is `type`, or is not yet known. -/
def checkValues (chain : StaticChain) :
    List Node → Option Ty → Checked (List Node × Option Ty)
  | [], type => .done ([], type)
  | value :: rest, type =>
    (checkExpression chain value).bind (fun value => (value :: rest, type)) fun value =>
    let type := type.or value.type?
    .ensure (requireAccepted type value.type?) (value :: rest, type) fun _ =>
    (checkValues chain rest type).map fun (rest, type) => (value :: rest, type)

end

end BlockScript

import BlockScript.Analysis.Expression
/-!
# Checking statements

Statements are checked in order, in tables that grow with each declaration; a block has a table of
its own. The table of a function's body also holds the type of the function's result, under a name
that no source text can spell, and a return is checked against the innermost such entry.

## Main definitions

* `checkInitial` — an initial value against a declared type
* `checkStatement`, `checkBlock`, `checkCases` — statements
-/

namespace BlockScript

/-- The name under which the tables of a function's body hold the type of its result. -/
def returnName : String :=
  "<return>"

/-- The type of a name that may be absent. -/
def resolveTy : Option String → Except AnalysisError (Option Ty)
  | some name => (Ty.named name).map some
  | none => .ok none

/-- Checks an initial value, which may be absent, against a declared type, which may be absent.
The second part of the outcome is the type of the variable. -/
def checkInitial (chain : StaticChain) (declared : Option Ty) (value : Node) :
    Checked (Node × Option Ty) :=
  if value.isNull then .done (value, declared)
  else
    (checkExpression chain value).bind (fun value => (value, declared)) fun value =>
    match declared with
    | none => .done (value, value.type?)
    | some ty =>
      .ensure (requireAccepted (some ty) value.type?) (value, declared) fun _ =>
      .done (value, some ty)

/-- Checks that the receiver of an assignment, which has been checked itself, can hold a value. -/
def requireReceiver (value : Node) : Node → Except AnalysisError Unit
  | .access name _ type (some binding) =>
    if binding.mutable then requireAccepted type value.type? else .error (.immutable name)
  | _ => .error .notAssignable

/-- The type that a return at some place must have. -/
def resultTyAt (chain : StaticChain) : Except AnalysisError (Option Ty) :=
  match chain.findVariable? returnName with
  | some binding => .ok binding.type
  | none => .error .returnOutsideFunction

/-- Checks something in place of a case that is none, with `isLast` telling whether it is the last
one: its value is looked at, if it is of a kind that has one. -/
def checkStrayCase (chain : StaticChain) (condition : Option Ty) (isLast : Bool) (node : Node) :
    Checked Node :=
  match node.value? with
  | none => .misshapen node .incomplete
  | some value =>
    if value.isNull then
      if isLast then .misshapen node .incomplete else .refuse node .earlyDefault
    else if isLast then .refuse node .missingDefault
    else
      (checkExpression chain value).bind (fun value => node.withValue value) fun value =>
      .ensure (requireAccepted condition value.type?) (node.withValue value) fun _ =>
      .misshapen (node.withValue value) .incomplete

mutual

/-- Checks a statement. -/
def checkStatement (tables : Tables) : Node → Checked (Node × Tables)
  | .discard expression =>
    (checkExpression tables.chain expression).bind
      (fun expression => (.discard expression, tables)) fun expression =>
    if expression.kind? = some .call then .done (.discard expression, tables)
    else .refuse (.discard expression, tables) .notACall
  | .declaration name typeName value binding =>
    let undeclared (value : Node) := (Node.declaration name typeName value binding, tables)
    if typeName.isNone && value.isNull then .refuse (undeclared value) (.bareDeclaration name)
    else
      .ensure (resolveTy typeName) (undeclared value) fun declared =>
      (checkInitial tables.chain declared value).bind (fun (value, _) => undeclared value)
        fun (value, ty) =>
      .ensure (tables.declare name ty true false) (undeclared value) fun (binding, tables) =>
      .done (.declaration name typeName value (some binding), tables)
  | .assignment receiver value =>
    if receiver.kind? = some .access then
      (checkExpression tables.chain value).bind
        (fun value => (.assignment receiver value, tables)) fun value =>
      (checkExpression tables.chain receiver).bind
        (fun receiver => (.assignment receiver value, tables)) fun receiver =>
      .ensure (requireReceiver value receiver) (.assignment receiver value, tables) fun _ =>
      .done (.assignment receiver value, tables)
    else .refuse (.assignment receiver value, tables) .notAssignable
  | .branch condition thenBody elseBody =>
    (checkExpression tables.chain condition).bind
      (fun condition => (.branch condition thenBody elseBody, tables)) fun condition =>
    .ensure (requireAccepted (some .boolean) condition.type?)
      (.branch condition thenBody elseBody, tables) fun _ =>
    if thenBody.isEmpty then .refuse (.branch condition thenBody elseBody, tables) .emptyBranch
    else
      (checkBlock tables.enter thenBody).bind
        (fun (thenBody, inside) =>
          (.branch condition thenBody elseBody, tables.resume inside)) fun (thenBody, inside) =>
      (checkBlock (tables.resume inside).enter elseBody).map fun (elseBody, inside) =>
        (.branch condition thenBody elseBody, tables.resume inside)
  | .switch condition cases =>
    (checkExpression tables.chain condition).bind
      (fun condition => (.switch condition cases, tables)) fun condition =>
    (checkCases tables condition.type? cases).map fun (cases, tables) =>
      (.switch condition cases, tables)
  | .loop condition body =>
    (checkExpression tables.chain condition).bind
      (fun condition => (.loop condition body, tables)) fun condition =>
    .ensure (requireAccepted (some .boolean) condition.type?) (.loop condition body, tables)
      fun _ =>
    (checkBlock tables.enter body).map fun (body, inside) =>
      (.loop condition body, tables.resume inside)
  | .ret value =>
    (checkExpression tables.chain value).bind (fun value => (.ret value, tables)) fun value =>
    .ensure (resultTyAt tables.chain) (.ret value, tables) fun result =>
    .ensure (requireAccepted result value.type?) (.ret value, tables) fun _ =>
    .done (.ret value, tables)
  | other => .misshapen (other, tables) (.unexpected .checkStatement other.kind?)

/-- Checks statements in order. -/
def checkBlock (tables : Tables) : List Node → Checked (List Node × Tables)
  | [] => .done ([], tables)
  | statement :: rest =>
    (checkStatement tables statement).bind
      (fun (statement, tables) => (statement :: rest, tables)) fun (statement, tables) =>
    (checkBlock tables rest).map fun (rest, tables) => (statement :: rest, tables)

/-- Checks the cases of a switch over a value of type `condition`. The last one, and only that,
must have no value. -/
def checkCases (tables : Tables) (condition : Option Ty) :
    List Node → Checked (List Node × Tables)
  | [] => .done ([], tables)
  | .case value body :: rest =>
    let checkedValue : Checked Node :=
      if value.isNull then
        if rest.isEmpty then .done value else .refuse value .earlyDefault
      else if rest.isEmpty then .refuse value .missingDefault
      else
        (checkExpression tables.chain value).bind (fun value => value) fun value =>
        .ensure (requireAccepted condition value.type?) value fun _ => .done value
    checkedValue.bind (fun value => (.case value body :: rest, tables)) fun value =>
    (checkBlock tables.enter body).bind
      (fun (body, inside) => (.case value body :: rest, tables.resume inside))
      fun (body, inside) =>
    (checkCases (tables.resume inside) condition rest).map fun (rest, tables) =>
      (.case value body :: rest, tables)
  | node :: rest =>
    (checkStrayCase tables.chain condition rest.isEmpty node).map fun node =>
      (node :: rest, tables)

end

end BlockScript

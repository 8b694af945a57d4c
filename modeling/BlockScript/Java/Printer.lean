import BlockScript.Java.Literal
import BlockScript.Java.Tree
/-!
# Printing Java

Every statement stands on lines of its own, four blanks deeper than the block around it; the
statements of a switch group are one level deeper than its label. Members of the class are set off
by empty lines.

## Main definitions

* `Java.Expression.text` — an expression
* `Java.Statement.lines` — a statement at a given depth
* `Java.Program.text` — a program
-/

namespace BlockScript.Java

namespace Expression

mutual

/-- The text of an expression. -/
def text : Expression → String
  | literal value => value.javaLiteral
  | name identifier => identifier
  | element array index => array ++ "[" ++ index.text ++ "]"
  | call function arguments => function ++ "(" ++ ", ".intercalate (texts arguments) ++ ")"
  | binary symbol left right => left.text ++ " " ++ symbol ++ " " ++ right.text
  | power base exponent => "(int) Math.pow(" ++ base.text ++ ", " ++ exponent.text ++ ")"
  | parentheses inner => "(" ++ inner.text ++ ")"
  | braces values => "\x7b" ++ ", ".intercalate (texts values) ++ "\x7d"

/-- The texts of several expressions. -/
def texts : List Expression → List String
  | [] => []
  | expression :: rest => expression.text :: texts rest

end

end Expression

/-- A line at a given depth. -/
def lineAt (depth : Nat) (text : String) : String :=
  String.ofList (List.replicate (4 * depth) ' ') ++ text

/-- An initial value behind what is declared. -/
def withValue (declared : String) : Option Expression → String
  | some value => declared ++ " = " ++ value.text
  | none => declared

namespace Statement

mutual

/-- The lines of a statement at a given depth. -/
def lines (depth : Nat) : Statement → List String
  | expression value => [lineAt depth (value.text ++ ";")]
  | localVariable type name value => [lineAt depth (withValue (type ++ " " ++ name) value ++ ";")]
  | assignment target value => [lineAt depth (target.text ++ " = " ++ value.text ++ ";")]
  | ifElse condition thenBody elseBody =>
    let head := lineAt depth ("if (" ++ condition.text ++ ") \x7b") ::
      linesOf (depth + 1) thenBody
    let other :=
      if elseBody.isEmpty then []
      else lineAt depth "\x7d else \x7b" :: linesOf (depth + 1) elseBody
    head ++ other ++ [lineAt depth "\x7d"]
  | switch condition groups =>
    lineAt depth ("switch (" ++ condition.text ++ ") \x7b") ::
      (groupLines (depth + 1) groups ++ [lineAt depth "\x7d"])
  | whileLoop condition body =>
    let head := lineAt depth ("while (" ++ condition.text ++ ") \x7b")
    if body.isEmpty then [head ++ "\x7d"]
    else head :: (linesOf (depth + 1) body ++ [lineAt depth "\x7d"])
  | breakOut => [lineAt depth "break;"]
  | exit none => [lineAt depth "return;"]
  | exit (some value) => [lineAt depth ("return " ++ value.text ++ ";")]

/-- The lines of several statements at a given depth. -/
def linesOf (depth : Nat) : List Statement → List String
  | [] => []
  | statement :: rest => lines depth statement ++ linesOf depth rest

/-- The lines of the groups of a switch, with the labels at a given depth. -/
def groupLines (depth : Nat) : List (Option Expression × List Statement) → List String
  | [] => []
  | (some label, body) :: rest =>
    lineAt depth ("case " ++ label.text ++ ":") :: (linesOf (depth + 1) body ++
      groupLines depth rest)
  | (none, body) :: rest =>
    lineAt depth "default:" :: (linesOf (depth + 1) body ++ groupLines depth rest)

end

end Statement

/-- The line of a field. -/
def Field.line (field : Field) : String :=
  let declared := match field.shape with
    | .array => field.type ++ "[] " ++ field.name
    | .plain => field.type ++ " " ++ field.name
    | .constant => "final " ++ field.type ++ " " ++ field.name
  lineAt 1 (withValue declared field.value ++ ";")

/-- The lines of a method. -/
def Method.lines (method : Method) : List String :=
  let parameters := method.parameters.map fun (type, name) => type ++ " " ++ name
  let head := lineAt 1
    (method.result ++ " " ++ method.name ++ "(" ++ ", ".intercalate parameters ++ ") \x7b")
  if method.body.isEmpty then [head ++ "\x7d"]
  else head :: (Statement.linesOf 2 method.body ++ [lineAt 1 "\x7d"])

/-- The lines of the entry point, which calls `main` on a new object. -/
def entryLines (exits : Bool) : List String :=
  [lineAt 1 "public static void main(String[] args) \x7b",
    lineAt 2 (if exits then "System.exit(new Main().main());" else "new Main().main();"),
    lineAt 1 "\x7d"]

/-- The lines of a program. -/
def Program.lines (program : Program) : List String :=
  let fields := if program.fields.isEmpty then [] else "" :: program.fields.map Field.line
  let entry := match program.entry with
    | some exits => "" :: entryLines exits
    | none => []
  let methods := program.methods.flatMap fun method => "" :: method.lines
  "public class Main \x7b" :: (fields ++ entry ++ methods ++ ["", "\x7d"])

/-- The text of a program. -/
def Program.text (program : Program) : String :=
  "\n".intercalate program.lines

end BlockScript.Java

import BlockScript.Datum
/-!
# Java programs

The part of Java that programs are emitted in: one class with fields, methods and an entry point.
Parentheses are part of the tree, so that the printer decides nothing about them.

## Main definitions

* `Java.Expression`, `Java.Statement` — the bodies of methods
* `Java.Field`, `Java.Method`, `Java.Program` — the class
-/

namespace BlockScript.Java

/-- Expressions. -/
inductive Expression where
  | literal (value : Scalar)
  | name (identifier : String)
  | element (array : String) (index : Expression)
  | call (function : String) (arguments : List Expression)
  | binary (symbol : String) (left right : Expression)
  /-- An integer power: a call of the library function with its result cast back. -/
  | power (base exponent : Expression)
  | parentheses (inner : Expression)
  /-- The values of an array. -/
  | braces (values : List Expression)
  deriving Repr, Inhabited

/-- Statements. -/
inductive Statement where
  | expression (value : Expression)
  | localVariable (type name : String) (value : Option Expression)
  | assignment (target value : Expression)
  | ifElse (condition : Expression) (thenBody elseBody : List Statement)
  /-- A switch; a group without a label is the default group. -/
  | switch (condition : Expression) (groups : List (Option Expression × List Statement))
  | whileLoop (condition : Expression) (body : List Statement)
  | breakOut
  | exit (value : Option Expression)
  deriving Repr, Inhabited

/-- How a field is declared. -/
inductive FieldShape where
  | array
  | plain
  | constant
  deriving DecidableEq, Repr, Inhabited

/-- A field of the class. -/
structure Field where
  /-- How the field is declared. -/
  shape : FieldShape
  /-- The type of the field, or of its elements. -/
  type : String
  /-- The name of the field. -/
  name : String
  /-- The initial value. -/
  value : Option Expression
  deriving Repr, Inhabited

/-- A method of the class. -/
structure Method where
  /-- The type of the result. -/
  result : String
  /-- The name of the method. -/
  name : String
  /-- The parameters, each with its type first. -/
  parameters : List (String × String)
  /-- The statements. -/
  body : List Statement
  deriving Repr, Inhabited

/-- A class with an entry point. -/
structure Program where
  /-- The fields. -/
  fields : List Field
  /-- Whether there is an entry point, and whether it passes the result of `main` on as the status
  of the process. -/
  entry : Option Bool
  /-- The methods. -/
  methods : List Method
  deriving Repr, Inhabited

end BlockScript.Java

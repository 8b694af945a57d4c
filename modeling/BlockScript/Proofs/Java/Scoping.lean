import BlockScript.Java.Tree
import Mathlib.Data.List.Basic
/-!
# Names in Java methods

A local variable is in scope from its own initial value up to the end of the braces around its
declaration; all groups of a switch stand in one pair of braces. Parameters are in scope in the
whole method, and what is neither a local variable nor a parameter is a field of the class. Java
allows no declaration of a local variable in the scope of a parameter or another local variable of
the same name.

A method is read with an eye to names alone: what every name that is used stands for, and which
local variables are declared.

## Main definitions

* `Java.Declaration`, `Java.Scope` — what names stand for at some place of a method
* `Java.Reading` — what is found when a part of a method is read
* `Java.Expression.used`, `Java.Statement.read` — names in expressions and in statements
* `Java.Method.reading` — names in a method
-/

namespace BlockScript.Java

/-- Where a name can be declared: in the class, or in a method. Local variables are counted in the
order of the text. -/
inductive Declaration where
  | field (index : Nat)
  | parameter (index : Nat)
  | localVariable (index : Nat)
  deriving DecidableEq, Repr

/-- What names stand for at some place of a method. -/
structure Scope where
  /-- The fields of the class. -/
  fields : List (String × Declaration)
  /-- The parameters and the local variables in scope, the latest first. -/
  locals : List (String × Declaration)
  /-- How many local variables the method has declared so far. -/
  count : Nat

namespace Scope

/-- The declaration that a name stands for. -/
def find? (scope : Scope) (name : String) : Option Declaration :=
  (scope.locals.lookup name).or (scope.fields.lookup name)

/-- Whether a parameter or a local variable of the name is in scope. -/
def isTaken (scope : Scope) (name : String) : Bool :=
  (scope.locals.lookup name).isSome

/-- The scope with one more local variable. -/
def declare (scope : Scope) (name : String) : Scope where
  fields := scope.fields
  locals := (name, .localVariable scope.count) :: scope.locals
  count := scope.count + 1

/-- The scope behind a pair of braces, at the end of which the scope is `inside`. -/
def leave (scope inside : Scope) : Scope :=
  { scope with count := inside.count }

variable {scope : Scope} {name : String}

theorem find?_declare (other : String) : (scope.declare name).find? other =
    if other = name then some (.localVariable scope.count) else scope.find? other := by
  unfold find? declare
  rw [List.lookup_cons]
  by_cases h : other = name
  · rw [if_pos h, h, beq_self_eq_true]
    rfl
  · rw [if_neg h, beq_false_of_ne h]

theorem isTaken_declare (other : String) :
    (scope.declare name).isTaken other = (decide (other = name) || scope.isTaken other) := by
  unfold isTaken declare
  rw [List.lookup_cons]
  by_cases h : other = name
  · rw [h, beq_self_eq_true]
    simp
  · rw [beq_false_of_ne h]
    simp [h]

end Scope

/-- A local variable as it is declared. -/
structure LocalDeclaration where
  /-- The type. -/
  type : String
  /-- The name. -/
  name : String
  /-- Whether a parameter or a local variable of the name is in scope already. -/
  clashes : Bool
  deriving DecidableEq, Repr

/-- What is found when a part of a method is read. -/
structure Reading where
  /-- What the names that are used stand for, in the order of the text. -/
  used : List (Option Declaration)
  /-- The local variables that are declared, in the order of the text. -/
  declared : List LocalDeclaration
  /-- The scope behind the part. -/
  behind : Scope

namespace Reading

/-- A part with the given uses, and with no declarations. -/
def ofUsed (used : List (Option Declaration)) (scope : Scope) : Reading where
  used := used
  declared := []
  behind := scope

/-- Two parts in a row; the second one begins in the scope behind the first. -/
def followedBy (first : Reading) (next : Scope → Reading) : Reading where
  used := first.used ++ (next first.behind).used
  declared := first.declared ++ (next first.behind).declared
  behind := (next first.behind).behind

/-- A part in braces, which begins in the given scope. -/
def inBraces (scope : Scope) (inside : Reading) : Reading :=
  { inside with behind := scope.leave inside.behind }

end Reading

mutual

/-- What the names in an expression stand for. -/
def Expression.used (scope : Scope) : Expression → List (Option Declaration)
  | .literal _ => []
  | .name identifier => [scope.find? identifier]
  | .element array index => scope.find? array :: index.used scope
  | .call _ arguments => usedInAll scope arguments
  | .binary _ left right => left.used scope ++ right.used scope
  | .power base exponent => base.used scope ++ exponent.used scope
  | .parentheses inner => inner.used scope
  | .braces values => usedInAll scope values

/-- What the names in several expressions stand for. -/
def usedInAll (scope : Scope) : List Expression → List (Option Declaration)
  | [] => []
  | expression :: rest => expression.used scope ++ usedInAll scope rest

end

/-- What the names in an expression that can be absent stand for. -/
def usedIfPresent (scope : Scope) (expression : Option Expression) : List (Option Declaration) :=
  expression.elim [] (Expression.used scope)

mutual

/-- Reads a statement that begins in the given scope. -/
def Statement.read (scope : Scope) : Statement → Reading
  | .expression value => .ofUsed (value.used scope) scope
  | .localVariable type name value => {
    used := usedIfPresent (scope.declare name) value
    declared := [{ type, name, clashes := scope.isTaken name }]
    behind := scope.declare name }
  | .assignment target value => .ofUsed (target.used scope ++ value.used scope) scope
  | .ifElse condition thenBody elseBody =>
    let inThen := fun scope => Reading.inBraces scope (readAll scope thenBody)
    let inElse := fun scope => Reading.inBraces scope (readAll scope elseBody)
    ((Reading.ofUsed (condition.used scope) scope).followedBy inThen).followedBy inElse
  | .switch condition groups =>
    let inside := fun scope => Reading.inBraces scope (readGroups scope groups)
    (Reading.ofUsed (condition.used scope) scope).followedBy inside
  | .whileLoop condition body =>
    let inside := fun scope => Reading.inBraces scope (readAll scope body)
    (Reading.ofUsed (condition.used scope) scope).followedBy inside
  | .breakOut => .ofUsed [] scope
  | .exit value => .ofUsed (usedIfPresent scope value) scope

/-- Reads several statements. -/
def readAll (scope : Scope) : List Statement → Reading
  | [] => .ofUsed [] scope
  | statement :: rest => (statement.read scope).followedBy fun scope => readAll scope rest

/-- Reads the groups of a switch, from which no scope is left before the last one. -/
def readGroups (scope : Scope) : List (Option Expression × List Statement) → Reading
  | [] => .ofUsed [] scope
  | (label, body) :: rest =>
    ((Reading.ofUsed (usedIfPresent scope label) scope).followedBy fun scope =>
      readAll scope body).followedBy fun scope => readGroups scope rest

end

theorem Reading.followedBy_ofUsed_nil (first : Reading) :
    first.followedBy (Reading.ofUsed []) = first := by
  unfold followedBy ofUsed
  rw [List.append_nil, List.append_nil]

theorem Reading.followedBy_assoc (first : Reading) (second third : Scope → Reading) :
    (first.followedBy second).followedBy third =
      first.followedBy fun scope => (second scope).followedBy third := by
  unfold followedBy
  rw [List.append_assoc, List.append_assoc]

theorem readAll_append (statements others : List Statement) : ∀ scope : Scope,
    readAll scope (statements ++ others) =
      (readAll scope statements).followedBy fun scope => readAll scope others := by
  induction statements with
  | nil => exact fun _ => rfl
  | cons statement rest ih =>
    intro scope
    rw [List.cons_append, readAll, readAll, Reading.followedBy_assoc]
    exact congrArg (Reading.followedBy _) (funext ih)

theorem readAll_singleton (scope : Scope) (statement : Statement) :
    readAll scope [statement] = statement.read scope :=
  Reading.followedBy_ofUsed_nil _

/-- A return without a value has no names. -/
theorem readAll_expression_exit (scope : Scope) (value : Expression) :
    readAll scope [.expression value, .exit none] = .ofUsed (value.used scope) scope :=
  Reading.followedBy_ofUsed_nil _

/-- The end of a group has no names. -/
theorem readAll_append_breakOut (scope : Scope) (statements : List Statement) :
    readAll scope (statements ++ [.breakOut]) = readAll scope statements := by
  rw [readAll_append]
  exact Reading.followedBy_ofUsed_nil _

/-- Declarations that are made one after the other, under their names. -/
def numbered (declaration : Nat → Declaration) (names : List String) :
    List (String × Declaration) :=
  names.zipIdx.map fun (name, index) => (name, declaration index)

/-- The scope outside of the methods of a class with the given fields. -/
def classScope (fields : List Field) : Scope where
  fields := numbered .field (fields.map Field.name)
  locals := []
  count := 0

/-- The scope at the beginning of a method of a class with the given fields. -/
def Method.scope (fields : List Field) (method : Method) : Scope :=
  { classScope fields with locals := numbered .parameter (method.parameters.map Prod.snd) }

/-- Reads the body of a method of a class with the given fields. -/
def Method.reading (fields : List Field) (method : Method) : Reading :=
  readAll (method.scope fields) method.body

end BlockScript.Java

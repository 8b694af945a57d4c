/-!
# Scopes

A frame is a table of variables and a table of functions; functions are told apart by name and
number of parameters. Frames are nested: a chain of frames lists them from the innermost outwards,
a lookup takes the first entry that it meets, and a definition goes into one frame, which must not
have the name yet. Variables and functions never get into each other's way.

What is stored for a variable (`V`) and for a function (`F`) is up to the user of the scopes.

## Main definitions

* `Frame` — one table, with `defineVariable` and `defineFunction`
* `Chain` — nested tables, with `findVariable?`, `findFunction?` and `updateVariable`
* `ScopeError` — a name that is defined twice or not at all
-/

namespace BlockScript

/-- A name that is defined twice in one frame, or in no frame of a chain. -/
inductive ScopeError where
  | duplicateVariable (name : String)
  | undefinedVariable (name : String)
  | duplicateFunction (name : String) (arity : Nat)
  | undefinedFunction (name : String) (arity : Nat)
  deriving DecidableEq, Repr

namespace ScopeError

/-- The name in question. -/
def name : ScopeError → String
  | duplicateVariable name => name
  | undefinedVariable name => name
  | duplicateFunction name _ => name
  | undefinedFunction name _ => name

/-- The error in words. -/
def message : ScopeError → String
  | duplicateVariable name => "variable " ++ name ++ " already defined in this scope"
  | undefinedVariable name => "undefined variable " ++ name
  | duplicateFunction name arity =>
    "function " ++ name ++ "/" ++ toString arity ++ " already defined in this scope"
  | undefinedFunction name arity => "undefined function " ++ name ++ "/" ++ toString arity

end ScopeError

/-- One table of variables and one of functions, each in the order of definition. -/
structure Frame (V F : Type) where
  /-- The variables by name. -/
  vars : List (String × V) := []
  /-- The functions by name and number of parameters. -/
  funs : List ((String × Nat) × F) := []
  deriving Repr, Inhabited

namespace Frame

variable {V F : Type}

/-- The variable of a name in this frame. -/
def findVariable? (frame : Frame V F) (name : String) : Option V :=
  frame.vars.lookup name

/-- The function of a name and arity in this frame. -/
def findFunction? (frame : Frame V F) (name : String) (arity : Nat) : Option F :=
  frame.funs.lookup (name, arity)

/-- The frame with one more variable, if the name is new in it. -/
def defineVariable (frame : Frame V F) (name : String) (v : V) :
    Except ScopeError (Frame V F) :=
  match frame.findVariable? name with
  | some _ => .error (.duplicateVariable name)
  | none => .ok { frame with vars := frame.vars ++ [(name, v)] }

/-- A definition succeeds just if the name is new, and puts its entry behind the others. -/
theorem defineVariable_eq_ok_iff {frame after : Frame V F} {name : String} {v : V} :
    frame.defineVariable name v = .ok after ↔
      frame.findVariable? name = none ∧
        after = { frame with vars := frame.vars ++ [(name, v)] } := by
  cases h : frame.findVariable? name <;> simp [defineVariable, h, eq_comm]

/-- The frame with one more function, if the name and arity are new in it. -/
def defineFunction (frame : Frame V F) (name : String) (arity : Nat) (f : F) :
    Except ScopeError (Frame V F) :=
  match frame.findFunction? name arity with
  | some _ => .error (.duplicateFunction name arity)
  | none => .ok { frame with funs := frame.funs ++ [((name, arity), f)] }

/-- A definition succeeds just if the name and arity are new, and puts its entry behind the
others. -/
theorem defineFunction_eq_ok_iff {frame after : Frame V F} {name : String} {arity : Nat} {f : F} :
    frame.defineFunction name arity f = .ok after ↔
      frame.findFunction? name arity = none ∧
        after = { frame with funs := frame.funs ++ [((name, arity), f)] } := by
  cases h : frame.findFunction? name arity <;> simp [defineFunction, h, eq_comm]

/-- The frame with `change` applied to the variable of a name. -/
def updateVariable (frame : Frame V F) (name : String) (change : V → V) : Frame V F :=
  { frame with
    vars := frame.vars.map fun entry =>
      if entry.1 = name then (entry.1, change entry.2) else entry }

end Frame

/-- Nested frames, the innermost first. -/
abbrev Chain (V F : Type) : Type := List (Frame V F)

namespace Chain

variable {V F : Type}

/-- The variable that a name means: the one of the innermost frame that has it. -/
def findVariable? (chain : Chain V F) (name : String) : Option V :=
  chain.findSome? fun frame => frame.findVariable? name

/-- The function that a name and arity mean. -/
def findFunction? (chain : Chain V F) (name : String) (arity : Nat) : Option F :=
  chain.findSome? fun frame => frame.findFunction? name arity

/-- The variable that a name means, or the error that there is none. -/
def lookupVariable (chain : Chain V F) (name : String) : Except ScopeError V :=
  match chain.findVariable? name with
  | some v => .ok v
  | none => .error (.undefinedVariable name)

/-- The function that a name and arity mean, or the error that there is none. -/
def lookupFunction (chain : Chain V F) (name : String) (arity : Nat) : Except ScopeError F :=
  match chain.findFunction? name arity with
  | some f => .ok f
  | none => .error (.undefinedFunction name arity)

/-- The chain with `change` applied to the variable that a name means. -/
def updateVariable (name : String) (change : V → V) : Chain V F → Chain V F
  | [] => []
  | frame :: outer =>
    match frame.findVariable? name with
    | some _ => frame.updateVariable name change :: outer
    | none => frame :: updateVariable name change outer

end Chain

end BlockScript

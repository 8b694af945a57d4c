import BlockScript.Analysis.Operation
import BlockScript.Node
/-!
# Static tables

What the analysis knows at some place of a program: the bindings of the names that can be used
there, and the number that the next new binding gets.

## Main definitions

* `StaticFrame`, `StaticChain` — tables of bindings and signatures
* `Tables` — the innermost table, those around it, and the next number
* `Tables.declare` — a new variable in the innermost table
-/

namespace BlockScript

/-- One table of bindings and signatures. -/
abbrev StaticFrame : Type := Frame Binding Signature

/-- Nested tables of bindings and signatures. -/
abbrev StaticChain : Type := Chain Binding Signature

/-- What is known at some place of a program. -/
structure Tables where
  /-- The table that definitions go into. -/
  inner : StaticFrame
  /-- The tables around it. -/
  outer : StaticChain
  /-- The number of the next new binding. -/
  fresh : Nat
  deriving Repr, Inhabited

namespace Tables

/-- The frame around every program. -/
def builtins : StaticFrame :=
  builtinFrame .print

/-- The tables at the beginning of a program. -/
def initial : Tables :=
  { inner := {}, outer := [builtins], fresh := 0 }

/-- All tables, the innermost first. -/
def chain (tables : Tables) : StaticChain :=
  tables.inner :: tables.outer

/-- The tables at the beginning of a block. -/
def enter (tables : Tables) : Tables :=
  { inner := {}, outer := tables.chain, fresh := tables.fresh }

/-- The tables behind a block that was left with the tables `inside`: what the block defined is
gone, but its numbers stay in use. -/
def resume (tables inside : Tables) : Tables :=
  { tables with fresh := inside.fresh }

/-- The tables with one more variable, and its binding. -/
def declare (tables : Tables) (name : String) (type : Option Ty) (mutable isList : Bool) :
    Except AnalysisError (Binding × Tables) :=
  let binding : Binding := { number := tables.fresh, name, type, mutable, isList }
  match tables.inner.defineVariable name binding with
  | .ok inner => .ok (binding, { tables with inner, fresh := tables.fresh + 1 })
  | .error e => .error (.scope e)

/-- The tables with one more function. -/
def declareFunction (tables : Tables) (signature : Signature) : Except AnalysisError Tables :=
  match tables.inner.defineFunction signature.name signature.arity signature with
  | .ok inner => .ok { tables with inner }
  | .error e => .error (.scope e)

end Tables

namespace StaticChain

/-- The binding of a variable. -/
def findVariable (chain : StaticChain) (name : String) : Except AnalysisError Binding :=
  (chain.lookupVariable name).mapError .scope

/-- The signature of a function. -/
def findFunction (chain : StaticChain) (name : String) (arity : Nat) :
    Except AnalysisError Signature :=
  (chain.lookupFunction name arity).mapError .scope

end StaticChain

end BlockScript

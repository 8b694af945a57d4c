import BlockScript.Scope
import BlockScript.Ty
/-!
# Functions that every program can call

A function is known to the analysis by its signature. The only function that is not written in the
language itself is `print`, which writes one line; it stands in a frame around every program.

## Main definitions

* `Signature` — name, Java name, parameter types and result type of a function
* `Signature.print` — the signature of `print`
* `builtinFrame` — the frame that holds `print`
-/

namespace BlockScript

/-- What callers know about a function. -/
structure Signature where
  /-- The name in the language. -/
  name : String
  /-- The name that calls get in Java. -/
  javaName : String
  /-- The types of the parameters. -/
  parameters : List Ty
  /-- The type of the result. -/
  result : Ty
  deriving DecidableEq, Repr, Inhabited

namespace Signature

/-- The number of parameters. -/
def arity (f : Signature) : Nat :=
  f.parameters.length

/-- The function that writes its argument on a line of its own. -/
def print : Signature :=
  { name := "print"
    javaName := "System.out.println"
    parameters := [.any]
    result := .nil }

end Signature

/-- The frame around every program; `print` is what its user keeps for that function. -/
def builtinFrame {V F : Type} (print : F) : Frame V F :=
  { funs := [((Signature.print.name, Signature.print.arity), print)] }

end BlockScript

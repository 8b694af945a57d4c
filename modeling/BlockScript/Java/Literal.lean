import BlockScript.Datum
import BlockScript.Text.Escape
/-!
# Literals in Java

Numbers, truth values and the absent value are written in Java as printing shows them; characters
and strings are put between their quotes, with escapes.

## Main definitions

* `Scalar.javaLiteral` — a literal in Java
-/

namespace BlockScript

/-- A literal in Java. -/
def Scalar.javaLiteral : Scalar → String
  | .character value => "'" ++ Text.escape (some '\'') value ++ "'"
  | .string value => "\"" ++ Text.escape (some '"') value ++ "\""
  | other => other.text

end BlockScript

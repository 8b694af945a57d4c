/-!
# Paths of files

Paths are shown and compared without the parts that do not matter: repeated and trailing slashes and
single dots.

## Main definitions

* `normalPath` — a path without such parts
-/

namespace BlockScript.CommandLine

/-- The slashes that an absolute path begins with. Exactly two of them are kept, because systems may
give them a meaning; otherwise one is enough. -/
def pathRoot (cs : List Char) : List Char :=
  match cs with
  | '/' :: '/' :: '/' :: _ => ['/']
  | '/' :: '/' :: _ => ['/', '/']
  | '/' :: _ => ['/']
  | _ => []

/-- The parts of a path between slashes, without those that do not matter. -/
def pathParts (path : String) : List String :=
  ((path.toList.splitOn '/').map String.ofList).filter fun part => part != "" && part != "."

/-- A path without repeated slashes, trailing slashes and single dots. -/
def normalPath (path : String) : String :=
  let text := String.ofList (pathRoot path.toList) ++ "/".intercalate (pathParts path)
  if text.isEmpty then "." else text

end BlockScript.CommandLine

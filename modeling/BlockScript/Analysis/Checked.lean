import BlockScript.Analysis.Operation
import BlockScript.Node.ShapeError
/-!
# Results of checking

Checking a piece of a program always leaves something behind: the piece with the annotations made
so far, and the notes taken for a trace. If the check fails, the first fault is there as well, and
nothing behind it has been looked at.

## Main definitions

* `AnalysisFault` — why a check fails
* `Checked` — what a check leaves behind
* `Checked.bind`, `Checked.ensure` — one check after another, one requirement after a check
-/

namespace BlockScript

/-- Why a check fails. -/
inductive AnalysisFault where
  /-- The program breaks a rule of the language. -/
  | refused (error : AnalysisError)
  /-- The tree cannot be walked. -/
  | misshapen (error : ShapeError)
  deriving DecidableEq, Repr

/-- What a check leaves behind. -/
structure Checked (α : Type) where
  /-- The outcome, or as much of it as there was before the fault. -/
  result : α
  /-- The notes taken, each with its level. -/
  notes : List (Int × String)
  /-- The first fault. -/
  fault : Option AnalysisFault
  deriving Repr

namespace Checked

variable {α β γ : Type}

/-- A check that succeeds. -/
def done (result : α) : Checked α :=
  { result, notes := [], fault := none }

/-- A check that succeeds and takes a note. -/
def noted (level : Int) (text : String) (result : α) : Checked α :=
  { result, notes := [(level, text)], fault := none }

/-- A check that finds a rule broken. -/
def refuse (result : α) (error : AnalysisError) : Checked α :=
  { result, notes := [], fault := some (.refused error) }

/-- A check that cannot be carried out. -/
def misshapen (result : α) (error : ShapeError) : Checked α :=
  { result, notes := [], fault := some (.misshapen error) }

/-- The same check with its outcome put into a larger one. -/
def map (f : α → β) (x : Checked α) : Checked β :=
  { result := f x.result, notes := x.notes, fault := x.fault }

/-- One check after another. If the first one fails, `soFar` says what is left behind. -/
def bind (x : Checked α) (soFar : α → β) (next : α → Checked β) : Checked β :=
  match x.fault with
  | some _ => x.map soFar
  | none =>
    let y := next x.result
    { y with notes := x.notes ++ y.notes }

/-- A requirement. If it is not met, `soFar` is left behind. -/
def ensure (requirement : Except AnalysisError γ) (soFar : β) (next : γ → Checked β) :
    Checked β :=
  match requirement with
  | .ok c => next c
  | .error e => refuse soFar e

end Checked

end BlockScript

import BlockScript.Proofs.Accepted
import BlockScript.Proofs.Parser.Fresh
import BlockScript.Proofs.Repetition.Filled
/-!
# Analysing a program again

The analysis of a program writes into its tree. A second analysis, of the tree that the first one
has left behind, finds the same: it has the same fault or none, takes the same notes and leaves the
same tree and the same tables. There is one exception. The values of a list literal may begin with
values that have no type, such as empty lists, and go on with others that have one. The first
analysis gives the list the type of the others and does not go back, and the second one refuses the
first value.

## Main definitions

* `nestedListTree` — programs with such a list

## Main results

* `analysis_can_be_repeated` — what a second analysis finds
* `empty_list_is_disowned` — the exception
-/

namespace BlockScript

/-- What an analysis has found is found again in what it has left behind, unless a list literal that
is no value of a global variable begins with a value that does not fit the type of the elements.
Then the second analysis may refuse that value, which has no type. There is no such list literal in
source texts, nor in trees without empty lists. -/
theorem analysis_can_be_repeated (tree : Node) :
    let first := checkProgram .initial tree
    let second := checkProgram .initial first.result.1
    (second = first ∨ ¬IsSettledProgram first.result.1 ∧
      ∃ ty, ty ≠ .any ∧ second.fault = some (.refused (.mismatch (some ty) none))) ∧
    (tree.erase = tree → tree.IsFilled → second = first) ∧
    ∀ source, parseProgram source = .ok tree → second = first := by
  intro first second
  have hagain : second = first ∨ ¬IsSettledProgram first.result.1 ∧ second.Disowns :=
    again_program .initial tree
  have hsame : tree.erase = tree → tree.IsFilled → second = first := fun hfresh hfilled =>
    hagain.resolve_right fun h => h.1 (settled_program hfresh hfilled)
  refine ⟨hagain, hsame, fun source hparse => ?_⟩
  exact hsame (isFresh_of_parseProgram hparse).2 (isFilled_of_parseProgram hparse)

/-- A second analysis of the sample program. -/
theorem analysis_can_be_repeated_sampleTree :
    parseProgram sampleSource = .ok sampleTree ∧
      checkProgram .initial (checkProgram .initial sampleTree).result.1 =
        checkProgram .initial sampleTree :=
  ⟨parseProgram_sampleSource,
    (analysis_can_be_repeated sampleTree).2.2 sampleSource parseProgram_sampleSource⟩

/-- A program that prints a list which begins with an empty one. -/
def nestedListTree (rest : List Node) : Node :=
  .program
    [.global "g" true none
      (.call "print" [.listLiteral (.listLiteral [] none :: rest) none] none none) false none]
    []

/-- An empty list is accepted in front of an integer, and refused by the next analysis. That makes
the second analysis fail where the first one has succeeded, or with another message. -/
theorem empty_list_is_disowned :
    let second (tree : Node) := checkProgram .initial (checkProgram .initial tree).result.1
    let accepted := nestedListTree [.literal (.integer 1) none]
    let refused := nestedListTree [.literal (.integer 1) none, .literal (.string "a") none]
    (accepted.erase = accepted ∧ (checkProgram .initial accepted).fault = none ∧
      (second accepted).fault = some (.refused (.mismatch (some .integer) none))) ∧
    refused.erase = refused ∧
      (checkProgram .initial refused).fault =
        some (.refused (.mismatch (some .integer) (some .string))) ∧
      (second refused).fault = some (.refused (.mismatch (some .integer) none)) := by
  refine ⟨⟨rfl, rfl, rfl⟩, rfl, rfl, rfl⟩

end BlockScript

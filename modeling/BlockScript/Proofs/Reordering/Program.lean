import BlockScript.Proofs.Accepted
import BlockScript.Proofs.Parser.Fresh
import BlockScript.Proofs.Reordering.Emission
import BlockScript.Proofs.Reordering.Run
/-!
# Functions can stand in any order

A program means the same in every order of its functions: to the analysis, in runs, and as Java. The
one thing that depends on the order is what the analysis has annotated when it comes to a fault,
since it stops there.

## Main results

* `functions_in_any_order` — a program in two orders of its functions
* `faults_stop_annotation` — annotations that depend on the order
-/

namespace BlockScript

open Run (SameRun)

theorem routine?_isSome_of_parseProgram {source : String} {globals functions : List Node}
    (h : parseProgram source = .ok (.program globals functions)) :
    ∀ node ∈ functions, node.routine?.isSome := by
  obtain ⟨tokens, -, hprogram⟩ := Parser.exists_program_of_parseProgram h
  clear h
  cases hprogram with
  | mk _ hfunctions =>
    induction hfunctions with
    | nil => exact fun _ hnode => absurd hnode List.not_mem_nil
    | cons hfunction _ ih =>
      refine List.forall_mem_cons.mpr ⟨?_, ih⟩
      cases hfunction
      rfl

/-- The tree of a source text is fresh in every order of its functions. -/
theorem isFresh_of_perm {source : String} {globals functions functions' : List Node}
    (hparse : parseProgram source = .ok (.program globals functions))
    (hperm : functions'.Perm functions) : (Node.program globals functions').IsFresh := by
  obtain ⟨hglobals, hfunctions⟩ := Node.isFresh_program.mp (isFresh_of_parseProgram hparse)
  refine Node.isFresh_program.mpr ⟨hglobals, Node.allFresh_iff.mpr fun node hnode => ?_⟩
  exact Node.allFresh_iff.mp hfunctions node (hperm.mem_iff.mp hnode)

/-- The analysis leaves a fresh tree as it was, up to annotations. -/
theorem erase_eq_of_mem {node result : Node} (hfresh : node.IsFresh)
    (h : result ∈ [node, (checkProgram .initial node).result.1]) : result.erase = node := by
  rcases List.mem_pair.mp h with rfl | rfl
  · exact hfresh.2
  · exact (annotates_program .initial node).trans hfresh.2

/-- A program can have its functions in any order. The analysis accepts it in both orders or in
none. If it does, it makes the same of every function, up to the numbers of bindings; if not, it
leaves every function as it was, or with its signature only, or as it would be annotated in any
order. Runs of the program, with whatever annotations, have the same result on the same surface, or
fail because of a duplicate function both, after the same output. And an accepted program has a Java
form in both orders, of the same lines up to the order of the methods. -/
theorem functions_in_any_order {source : String} {globals functions functions' : List Node}
    (hparse : parseProgram source = .ok (.program globals functions))
    (hperm : functions'.Perm functions) :
    let checked := checkProgram .initial (.program globals functions)
    let checked' := checkProgram .initial (.program globals functions')
    (checked.fault = none ↔ checked'.fault = none) ∧
    (∃ globals' results results' annotated,
      checked.result.1 = .program globals' results ∧
      checked'.result.1 = .program globals' results' ∧
      List.Forall₂ (Node.LeftAs annotated) functions results ∧
      List.Forall₂ (Node.LeftAs annotated) functions' results' ∧
      (checked.fault = none → results.map Node.unnumbered = functions.map annotated ∧
        results'.map Node.unnumbered = functions'.map annotated)) ∧
    (∀ program ∈ [.program globals functions, checked.result.1],
      ∀ program' ∈ [.program globals functions', checked'.result.1],
      ∀ (fuel : Nat) (world : World), world.transcript.verbosity < 2 →
        SameRun (runProgram fuel program world) (runProgram fuel program' world)) ∧
    (checked.fault = none → ∃ form form',
      emitProgram checked.result.1 = .ok form ∧ emitProgram checked'.result.1 = .ok form' ∧
      form.methods.Perm form'.methods ∧ ∃ start,
        form.lines = start ++ form.methods.flatMap (fun method => "" :: method.lines) ++
          ["", "\x7d"] ∧
        form'.lines = start ++ form'.methods.flatMap (fun method => "" :: method.lines) ++
          ["", "\x7d"]) := by
  intro checked checked'
  obtain ⟨hiff, globals', results, results', annotated, hresult, hresult', hleft, hleft', -,
    hall⟩ := checkProgram_of_perm hperm
  refine ⟨hiff, ⟨globals', results, results', annotated, hresult, hresult', hleft, hleft', hall⟩,
    ?_, fun haccepted => ?_⟩
  · -- annotations are not seen, and without them only the order is different
    intro program hprogram program' hprogram' fuel world hverbosity
    have hbare := erase_eq_of_mem (isFresh_of_perm hparse .rfl) hprogram
    have hbare' := erase_eq_of_mem (isFresh_of_perm hparse hperm) hprogram'
    have hkeeps : world.transcript.keeps 2 = false := by
      simpa [Transcript.keeps] using hverbosity
    have hrun := Run.alike_runProgram fuel program world world rfl
    have hrun' := Run.alike_runProgram fuel program' world world rfl
    rw [hbare] at hrun
    rw [hbare'] at hrun'
    have hfunctions := routine?_isSome_of_parseProgram hparse
    exact (sameRun_of_perm fuel hperm hfunctions hkeeps).of_onSurface hrun hrun'
  · obtain ⟨_, _, hprogram, htyped⟩ := typed_of_accepted hparse ⟨haccepted, rfl⟩
    cases hresult.symm.trans hprogram
    obtain ⟨hmap, hmap'⟩ := hall haccepted
    have hreordered : (results'.map Node.unnumbered).Perm (results.map Node.unnumbered) := by
      rw [hmap, hmap']
      exact hperm.map annotated
    obtain ⟨form, form', hform, hform', hforms⟩ := emitProgram_of_perm htyped hreordered
    rw [hresult, hresult']
    exact ⟨form, form', hform, hform', hforms.methods, hforms.exists_lines⟩

/-- The sample program with its functions in the other order. -/
theorem functions_in_any_order_sampleTree :
    parseProgram sampleSource = .ok sampleTree ∧
      ∃ globals functions, sampleTree = .program globals functions ∧
        functions.reverse.Perm functions ∧
        ∃ form form', emitProgram (checkProgram .initial sampleTree).result.1 = .ok form ∧
          emitProgram (checkProgram .initial (.program globals functions.reverse)).result.1 =
            .ok form' ∧ form.methods.Perm form'.methods := by
  refine ⟨parseProgram_sampleSource, _, _, rfl, List.reverse_perm _, ?_⟩
  obtain ⟨-, -, -, hforms⟩ :=
    functions_in_any_order parseProgram_sampleSource (List.reverse_perm _)
  obtain ⟨form, form', hform, hform', hmethods, -⟩ := hforms yields_sampleTree.1
  exact ⟨form, form', hform, hform', hmethods⟩

/-! ### Faults -/

/-- A program with a function that returns what it must not, behind one without a fault. -/
def faultySource : String :=
  "FUN main() DO print(1); END FUN bad() DO RETURN 1; END"

/-- The first function of the program. -/
def faultlessFunction : Node :=
  .function "main" [] [] none [.discard (.call "print" [.literal (.integer 1) none] none none)] none

/-- The second function of the program. -/
def faultyFunction : Node :=
  .function "bad" [] [] none [.ret (.literal (.integer 1) none)] none

/-- The first function with all annotations. -/
def annotatedFunction : Node :=
  .function "main" [] [] none
    [.discard (.call "print" [.literal (.integer 1) (some .integer)] (some .nil)
      (some Signature.print))]
    (some ⟨"main", "main", [], .nil⟩)

/-- The second function with the annotations up to the fault. -/
def stoppedFunction : Node :=
  .function "bad" [] [] none [.ret (.literal (.integer 1) (some .integer))]
    (some ⟨"bad", "bad", [], .nil⟩)

/-- If there is a fault, what is annotated depends on the order of the functions: what stands behind
the fault is not. -/
theorem faults_stop_annotation :
    ¬∀ (source : String) (globals functions functions' globals' results results' : List Node),
      parseProgram source = .ok (.program globals functions) → functions'.Perm functions →
      (checkProgram .initial (.program globals functions)).result.1 = .program globals' results →
      (checkProgram .initial (.program globals functions')).result.1 = .program globals' results' →
      (results'.map Node.unnumbered).Perm (results.map Node.unnumbered) := by
  intro h
  have hparse : parseProgram faultySource =
      .ok (.program [] [faultlessFunction, faultyFunction]) := by
    cbv
  have hresult :
      (checkProgram .initial (.program [] [faultlessFunction, faultyFunction])).result.1 =
        .program [] [annotatedFunction, stoppedFunction] := by
    cbv
  have hresult' :
      (checkProgram .initial (.program [] [faultyFunction, faultlessFunction])).result.1 =
        .program [] [stoppedFunction, faultlessFunction.signed] := by
    cbv
  have hperm := h _ _ _ _ _ _ _ hparse (.swap _ _ _) hresult hresult'
  -- in the second order `main` has its signature only
  have hmem := hperm.mem_iff.mp (List.mem_map_of_mem (List.mem_cons_of_mem _ List.mem_cons_self))
  have hsigned : faultlessFunction.signed = .function "main" [] [] none
      [.discard (.call "print" [.literal (.integer 1) none] none none)]
      (some ⟨"main", "main", [], .nil⟩) := by
    cbv
  rw [hsigned] at hmem
  simp [annotatedFunction, stoppedFunction, Node.unnumbered, Node.unnumberedAll] at hmem

end BlockScript

import BlockScript.Proofs.Accepted
import BlockScript.Proofs.Judgement.Function
/-!
# The analysis decides which programs are well typed

The analysis of a parsed program finds no fault exactly if the program follows from the typing
rules. An analysed program follows from the rules with its annotations, and every fault is a rule
that is broken.

## Main results

* `Judgement.decides_program` — programs of the grammar
* `Judgement.accepts_iff_wellTyped` — programs that are parsed from a source
-/

namespace BlockScript

namespace Judgement

open Checked (Decides)
open BlockScript.Parser (AllLexed)

/-! ### Programs -/

/-- A program begins with nothing but `print`. -/
theorem situated_initial : Situated .initial .initial where
  vars _ _ := .none
  funs name arity := by
    have hfind : Chain.findFunction? Tables.initial.chain name arity =
        if name = "print" ∧ arity = 1 then some Signature.print else none := by
      by_cases hkey : name = "print" ∧ arity = 1
      · obtain ⟨rfl, rfl⟩ := hkey
        rfl
      · have hne : ((name, arity) == (Signature.print.name, Signature.print.arity)) = false :=
          beq_eq_false_iff_ne.mpr fun heq => hkey (Prod.mk.inj heq)
        simp only [Tables.initial, Tables.chain, Tables.builtins, builtinFrame,
          Chain.findFunction?_cons, Frame.findFunction?, List.lookup_cons, hne, if_neg hkey]
        rfl
    rw [hfind]
    change Option.Rel _ (if name = "print" ∧ arity = 1 then _ else _) _
    split_ifs
    · exact .some ⟨rfl, rfl⟩
    · exact .none
  result := rfl
  wellFormed := wellFormed_initial
  taken _ _ := by simp [Environment.initial, Tables.initial, Frame.findVariable?]

/-- The check of a program decides whether it is well typed. -/
theorem decides_program {tokens : List Token} {program : Node}
    (hprogram : Grammar.Program tokens program) (htokens : AllLexed tokens) :
    Decides (checkProgram .initial program) (Program Unread program)
      fun outcome => Program Exact outcome.1 ∧ outcome.1.erase = program := by
  obtain ⟨hglobals, hfunctions⟩ := hprogram
  rename_i usedGlobals globals usedFunctions functions
  have hstart {note : String} : Decides (Checked.noted 1 note ()) True fun _ => True :=
    .noted trivial
  rw [checkProgram]
  refine hstart.bind (fun _ => trivial) fun _ _ => ?_
  refine Decides.bind (decides_globals hglobals htokens.left situated_initial rfl) ?_ ?_
  · rintro ⟨h, -, -, -⟩
    exact ⟨_, h⟩
  rintro ⟨globalResults, behind⟩ ⟨Γ, hglobalResults, hglobalErase, hbehind, hfuns⟩
  -- the rules know no other environment behind the global variables
  have hparts : Program Unread (.program globals functions) → ∃ headers,
      List.Forall₂ Header functions headers ∧ (headers.map Prod.fst).Nodup ∧
        List.Forall₂ (fun node header => Function Unread (Γ.withFunctions headers) node header.2)
          functions headers := by
    rintro ⟨hglobals', hheaders, hnodup, hbodies⟩
    rw [← hglobalErase] at hglobals'
    obtain rfl := hglobals'.unique hglobalResults.erase
    exact ⟨_, hheaders, hnodup, hbodies⟩
  have hsame : withFuns behind [] = behind := by
    rw [withFuns, ← hfuns]
  refine Decides.bind (hsame ▸ decides_headers (isFunction_of_many hfunctions htokens.right)
    .nil List.nodup_nil) ?_ ?_
  · intro h
    obtain ⟨headers, hheaders, hnodup, -⟩ := hparts h
    exact ⟨headers, hheaders, hnodup⟩
  rintro ⟨signed, declared⟩ ⟨headers, entries, hsigned, hnodup, hrecords, rfl⟩
  refine ((decides_functions hsigned (hbehind.withFuns hfuns hrecords)).weaken ?_).map ?_
  · intro h
    obtain ⟨headers', hheaders', -, hbodies⟩ := hparts h
    rwa [List.right_unique_forall₂' (fun _ _ _ h h' => h.unique h') hheaders'
      hsigned.headers] at hbodies
  · rintro ⟨results, after⟩ ⟨hbodies, hheaders, herase⟩
    refine ⟨.mk hglobalResults hheaders hnodup hbodies, ?_⟩
    rw [Node.erase, hglobalErase, herase]

/-- The analysis accepts exactly the programs that are well typed, and annotates each expression
with its type, of which there is one only. Whatever it finds fault with is a rule that is broken. -/
theorem accepts_iff_wellTyped {source : String} {program : Node}
    (hparse : parseProgram source = .ok program) :
    ((checkProgram .initial program).fault = none ↔ Program Unread program) ∧
      ((checkProgram .initial program).fault = none →
        Program Exact (checkProgram .initial program).result.1 ∧
          (checkProgram .initial program).result.1.erase = program) ∧
      (∀ fault, (checkProgram .initial program).fault = some fault →
        ∃ e, fault = .refused e) ∧
      ∀ Γ node ty ty', HasTy Unread Γ node ty → HasTy Unread Γ node ty' → ty = ty' := by
  obtain ⟨tokens, htokens, hprogram⟩ := Parser.exists_program_of_parseProgram hparse
  have hdecides := decides_program hprogram htokens
  refine ⟨⟨fun h => ?_, hdecides.complete⟩, hdecides.sound, hdecides.refused,
    fun _ _ _ _ h h' => h.unique h'⟩
  obtain ⟨hexact, herase⟩ := hdecides.sound h
  exact herase ▸ hexact.erase

theorem accepts_iff_wellTyped_sampleTree :
    parseProgram sampleSource = .ok sampleTree ∧ Program Unread sampleTree :=
  ⟨parseProgram_sampleSource,
    (accepts_iff_wellTyped parseProgram_sampleSource).1.mp yields_sampleTree.1⟩

end Judgement

end BlockScript

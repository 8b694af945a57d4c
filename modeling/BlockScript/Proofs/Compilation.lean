import BlockScript.Proofs.Accepted
import BlockScript.Proofs.Analysis.Verdict
import BlockScript.Proofs.Reordering.Emission
import BlockScript.Proofs.Scoped.World
import BlockScript.Session
/-!
# Compilation is total

The emission takes everything that it needs from annotations, and trusts that they are there. The
analysis of an accepted program leaves no place of the tree without them. So a source text that is
not refused, by the parser or by the analysis, has a Java form.

## Main definitions

* `Node.IsAnnotated` — trees that have all their annotations
* `compile` — the Java form of a source text

## Main results

* `TypedProgram.isAnnotated` — accepted programs have all their annotations
* `compile_is_total` — what comes of a source text
-/

namespace BlockScript

/-- The binding of a name is there, and has a type. -/
def Binding.IsTyped (binding : Option Binding) : Prop :=
  ∃ found ty, binding = some found ∧ found.type = some ty

namespace Node

mutual

/-- Whether all expressions of a tree have types, all names that are introduced or used have
bindings with types, all functions and calls have signatures, and all operators are known to
Java. -/
def IsAnnotated : Node → Prop
  | null => True
  | literal _ type => type.isSome
  | group inner type => type.isSome ∧ inner.IsAnnotated
  | binary symbol left right type =>
    type.isSome ∧ (precedenceOf symbol).Succeeds ∧ left.IsAnnotated ∧ right.IsAnnotated
  | access _ offset type binding =>
    type.isSome ∧ Binding.IsTyped binding ∧ offset.IsAnnotated
  | call _ arguments type callee => type.isSome ∧ callee.isSome ∧ AllAnnotated arguments
  | listLiteral values type => type.isSome ∧ AllAnnotated values
  | discard expression => expression.IsAnnotated
  | declaration _ _ value binding => Binding.IsTyped binding ∧ value.IsAnnotated
  | assignment receiver value => receiver.IsAnnotated ∧ value.IsAnnotated
  | branch condition thenBody elseBody =>
    condition.IsAnnotated ∧ AllAnnotated thenBody ∧ AllAnnotated elseBody
  | case value body => value.IsAnnotated ∧ AllAnnotated body
  | switch condition cases => condition.IsAnnotated ∧ AllAnnotated cases
  | loop condition body => condition.IsAnnotated ∧ AllAnnotated body
  | ret value => value.IsAnnotated
  | global _ _ _ value _ binding => Binding.IsTyped binding ∧ value.IsAnnotated
  | function _ _ _ _ body signature => signature.isSome ∧ AllAnnotated body
  | program globals functions => AllAnnotated globals ∧ AllAnnotated functions

/-- Whether several trees have all their annotations. -/
def AllAnnotated : List Node → Prop
  | [] => True
  | node :: rest => node.IsAnnotated ∧ AllAnnotated rest

end

theorem allAnnotated_iff {nodes : List Node} :
    AllAnnotated nodes ↔ ∀ node ∈ nodes, node.IsAnnotated := by
  induction nodes with
  | nil => exact iff_of_true trivial fun _ hnode => absurd hnode List.not_mem_nil
  | cons node rest ih => rw [AllAnnotated, ih, List.forall_mem_cons]

end Node

/-! ### Well-typed trees -/

section

variable {chain : StaticChain} {node : Node} {ty : Ty}

mutual

theorem Typed.isAnnotated : ∀ {node : Node} {ty : Ty}, Typed chain node ty → node.IsAnnotated
  | _, _, .literal => rfl
  | _, _, .group h => ⟨rfl, h.isAnnotated⟩
  | _, _, .binary hop hleft hright _ =>
    ⟨rfl, succeeds_precedenceOf hop, hleft.isAnnotated, hright.isAnnotated⟩
  | _, _, .variable _ _ _ htype => ⟨rfl, ⟨_, _, rfl, htype⟩, trivial⟩
  | _, _, .element _ hoffset _ _ htype => ⟨rfl, ⟨_, _, rfl, htype⟩, hoffset.isAnnotated⟩
  | _, _, .call _ harguments => ⟨rfl, rfl, harguments.allAnnotated⟩

theorem TypedArguments.allAnnotated : ∀ {nodes : List Node} {types : List Ty},
    TypedArguments chain nodes types → Node.AllAnnotated nodes
  | _, _, .nil => trivial
  | _, _, .cons h _ hrest => ⟨h.isAnnotated, hrest.allAnnotated⟩

end

theorem TypedInitial.isAnnotated (h : TypedInitial chain ty node) : node.IsAnnotated := by
  cases h with
  | absent => trivial
  | present h => exact h.isAnnotated

/-- A declaration gives its variable the declared type. -/
theorem Binding.isTyped_of_declare {tables after : Tables} {name : String} {mutable isList : Bool}
    {binding : Binding}
    (h : tables.declare name (some ty) mutable isList = .ok (binding, after)) :
    Binding.IsTyped (some binding) := by
  obtain ⟨-, rfl, -⟩ := Tables.declare_eq_ok_iff.mp h
  exact ⟨_, ty, rfl, rfl⟩

end

mutual

theorem TypedStatement.isAnnotated : ∀ {tables after : Tables} {node : Node},
    TypedStatement tables node after → node.IsAnnotated
  | _, _, _, .discard h => h.isAnnotated
  | _, _, _, .declaration _ hvalue hdeclare =>
    ⟨Binding.isTyped_of_declare hdeclare, hvalue.isAnnotated⟩
  | _, _, _, .assignment hvalue hreceiver _ _ => ⟨hreceiver.isAnnotated, hvalue.isAnnotated⟩
  | _, _, _, .branch hcondition hthen helse =>
    ⟨hcondition.isAnnotated, hthen.allAnnotated, helse.allAnnotated⟩
  | _, _, _, .switch hcondition hcases => ⟨hcondition.isAnnotated, hcases.allAnnotated⟩
  | _, _, _, .loop hcondition hbody => ⟨hcondition.isAnnotated, hbody.allAnnotated⟩
  | _, _, _, .ret hvalue _ _ _ => hvalue.isAnnotated

theorem TypedBlock.allAnnotated : ∀ {tables after : Tables} {nodes : List Node},
    TypedBlock tables nodes after → Node.AllAnnotated nodes
  | _, _, _, .nil => trivial
  | _, _, _, .cons h hrest => ⟨h.isAnnotated, hrest.allAnnotated⟩

theorem TypedCases.allAnnotated : ∀ {tables after : Tables} {nodes : List Node},
    TypedCases tables nodes after → Node.AllAnnotated nodes
  | _, _, _, .nil => trivial
  | _, _, _, .default hbody hrest => ⟨⟨trivial, hbody.allAnnotated⟩, hrest.allAnnotated⟩
  | _, _, _, .valued hvalue hbody hrest =>
    ⟨⟨hvalue.isAnnotated, hbody.allAnnotated⟩, hrest.allAnnotated⟩

end

theorem TypedGlobals.allAnnotated {tables after : Tables} {nodes : List Node}
    (h : TypedGlobals tables nodes after) : Node.AllAnnotated nodes := by
  induction h with
  | nil => trivial
  | cons h _ ih =>
    refine ⟨?_, ih⟩
    cases h with
    | list _ hvalues hdeclare =>
      refine ⟨Binding.isTyped_of_declare hdeclare, rfl, Node.allAnnotated_iff.mpr ?_⟩
      intro value hvalue
      obtain ⟨own, htyped, -⟩ := hvalues value hvalue
      exact htyped.isAnnotated
    | value _ hvalue hdeclare =>
      exact ⟨Binding.isTyped_of_declare hdeclare, hvalue.isAnnotated⟩

theorem TypedFunctions.allAnnotated {tables after : Tables} {nodes : List Node}
    {bindings : List (List Binding)} (h : TypedFunctions tables nodes bindings after) :
    Node.AllAnnotated nodes := by
  induction h with
  | nil => trivial
  | cons _ hbody _ ih =>
    cases hbody with
    | mk _ _ hbody => exact ⟨⟨rfl, hbody.allAnnotated⟩, ih⟩

/-- An accepted program has all its annotations. -/
theorem TypedProgram.isAnnotated {globals functions : List Node} {bindings : List (List Binding)}
    (h : TypedProgram globals functions bindings) :
    (Node.program globals functions).IsAnnotated := by
  obtain ⟨behind, declared, after, hglobals, -, hfunctions⟩ := h.exists_tables
  exact ⟨hglobals.allAnnotated, hfunctions.allAnnotated⟩

/-! ### Source texts -/

/-- The Java form of a source text, which is parsed, analyzed and emitted. -/
def compile (source : String) : Except ToolError String :=
  match parseProgram source with
  | .error e => .error (.source e)
  | .ok program =>
    match (do Session.analyze; Session.emit) ((Session.initial 0).load program) with
    | .ok java _ => .ok java
    | .error e _ => .error e

/-- A session keeps the annotated tree, the tables and the notes of an analysis, also if it finds a
fault. -/
theorem Session.analyze_apply (session : Session) :
    let checked := checkProgram session.tables session.program
    let transcript := session.world.transcript.notes checked.notes
    let after : Session :=
      { tables := checked.result.2, world := { session.world with transcript }
        program := checked.result.1 }
    Session.analyze session =
      match checked.fault with
      | some fault => .error (.ofFault fault) after
      | none => .ok () after := by
  unfold Session.analyze Session.Step.throwFault
  rw [Scoped.get_bind_apply]
  generalize checkProgram session.tables session.program = checked
  obtain ⟨result, notes, fault⟩ := checked
  cases fault <;> rfl

/-- A session that runs its program ends in the state of the run. -/
theorem Session.run_apply (fuel : Nat) (session : Session) :
    Session.run fuel session =
      match runProgram fuel session.program session.world with
      | .ok value after => .ok (after.datum value) { session with world := after }
      | .error failure after => .error (.ofFailure failure) { session with world := after } := by
  rw [Session.run, Scoped.get_bind_apply, Step.ofRunDatum, Step.ofRun, Scoped.bind_apply]
  cases runProgram fuel session.program session.world <;> rfl

/-- The tree of a source text is analyzed in the tables that every program begins with, and what is
emitted is the annotated tree. -/
theorem compile_eq {source : String} {program : Node} (h : parseProgram source = .ok program) :
    compile source =
      match (checkProgram .initial program).fault with
      | some fault => .error (.ofFault fault)
      | none =>
        match emitProgram (checkProgram .initial program).result.1 with
        | .ok java => .ok java.text
        | .error e => .error (.ofEmission e) := by
  rw [compile, h]
  simp only [Scoped.bind_apply, Session.analyze_apply, Session.load, Session.initial]
  cases (checkProgram .initial program).fault with
  | some fault => rfl
  | none =>
    simp only [Session.emit, Scoped.get_bind_apply]
    cases emitProgram (checkProgram .initial program).result.1 <;> rfl

/-- A source text is refused by the parser, or by the analysis because a rule of the language is
broken, or it has a Java form. In the last case nothing is missing in the annotated tree. -/
theorem compile_is_total (source : String) :
    (∃ e, parseProgram source = .error e ∧ compile source = .error (.source e)) ∨
    ∃ program, parseProgram source = .ok program ∧
      let checked := checkProgram .initial program
      (∃ e, checked.fault = some (.refused e) ∧ compile source = .error (.analysis e)) ∨
      (checked.fault = none ∧ checked.result.1.IsAnnotated ∧
        ∃ java, emitProgram checked.result.1 = .ok java ∧ compile source = .ok java.text) := by
  cases hparse : parseProgram source with
  | error e =>
    refine .inl ⟨e, rfl, ?_⟩
    rw [compile, hparse]
  | ok program =>
    refine .inr ⟨program, rfl, ?_⟩
    intro checked
    have hverdict : checked.IsVerdict :=
      isVerdict_program (isProgram_of_parseProgram hparse) .initial
    have hcompile := compile_eq hparse
    change compile source = match checked.fault with | some _ => _ | none => _ at hcompile
    cases hfault : checked.fault with
    | some fault =>
      rw [hfault] at hcompile
      -- a tree that was parsed never has the wrong shape
      cases fault with
      | refused e => exact .inl ⟨e, rfl, hcompile⟩
      | misshapen e => exact absurd hfault (hverdict e)
    | none =>
      rw [hfault] at hcompile
      obtain ⟨globals, functions, hresult, htyped⟩ := typed_of_accepted hparse ⟨hfault, rfl⟩
      obtain ⟨java, -, hjava, -⟩ := emitProgram_of_perm htyped (.refl _)
      rw [← hresult] at hjava
      refine .inr ⟨rfl, ?_, java, hjava, ?_⟩
      · rw [show checked.result.1 = .program globals functions from hresult]
        exact htyped.isAnnotated
      · rw [hcompile]
        simp only [show emitProgram (checkProgram .initial program).result.1 = .ok java from hjava]

end BlockScript

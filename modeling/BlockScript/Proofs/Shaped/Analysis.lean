import BlockScript.Proofs.Analysis.Annotation
import BlockScript.Proofs.Analysis.Resolved
import BlockScript.Proofs.Analysis.Verdict
import BlockScript.Proofs.Json.Tree
/-!
# What the analysis says about the shape of a tree

The analysis walks through the whole tree of a program, so it stops at any node that stands in a
place where it has no meaning. If it finds no fault, the tree has the right shape, and if it finds
that the tree cannot be walked, the tree has not.

## Main results

* `isProgram_of_yields` — accepted trees can be walked
* `not_isProgram_of_misshapen` — a tree that the analysis cannot walk has not the right shape
-/

namespace BlockScript

open Node

namespace Node

mutual

/-- Annotations do not change the literals of a tree. -/
theorem literals_erase : ∀ node : Node, node.erase.literals = node.literals
  | null | literal .. => rfl
  | group inner _ | discard inner | ret inner => literals_erase inner
  | binary _ left right _ | assignment left right =>
    congrArg₂ _ (literals_erase left) (literals_erase right)
  | access _ value _ _ | declaration _ _ value _ | global _ _ _ value _ _ => literals_erase value
  | call _ nodes _ _ | listLiteral nodes _ | function _ _ _ _ nodes _ =>
    literalsOfAll_eraseAll nodes
  | branch condition thenBody elseBody =>
    congrArg₂ _ (congrArg₂ _ (literals_erase condition) (literalsOfAll_eraseAll thenBody))
      (literalsOfAll_eraseAll elseBody)
  | case head body | switch head body | loop head body =>
    congrArg₂ _ (literals_erase head) (literalsOfAll_eraseAll body)
  | program globals functions =>
    congrArg₂ _ (literalsOfAll_eraseAll globals) (literalsOfAll_eraseAll functions)

theorem literalsOfAll_eraseAll : ∀ nodes : List Node,
    literalsOfAll (eraseAll nodes) = literalsOfAll nodes
  | [] => rfl
  | node :: rest => congrArg₂ _ (literals_erase node) (literalsOfAll_eraseAll rest)

end

theorem literals_subset {node : Node} {nodes : List Node} (h : node ∈ nodes) :
    node.literals ⊆ literalsOfAll nodes := by
  induction nodes with
  | nil => cases h
  | cons first rest ih =>
    rcases List.mem_cons.mp h with rfl | h
    · exact List.subset_append_left _ _
    · exact fun value hvalue => List.mem_append_right _ (ih h hvalue)

end Node

/-! ### Accepted trees -/

section

variable {allowed : Scalar → Prop}

theorem Resolved.isExpression {chain : StaticChain} : ∀ {node : Node}, Resolved chain node →
    (∀ value ∈ node.literals, allowed value) → IsExpression allowed node
  | _, .literal, hall => .literal (hall _ List.mem_cons_self)
  | _, .group h, hall => .group (h.isExpression hall)
  | _, .binary hleft hright, hall =>
    .binary (hleft.isExpression (List.forall_mem_append.mp hall).1)
      (hright.isExpression (List.forall_mem_append.mp hall).2)
  | _, .variable _, _ => .variable
  | _, .element h _, hall => .element (h.isExpression hall)
  | _, .call _ h, hall => .call fun node hnode =>
    (h node hnode).isExpression fun value hvalue => hall value (literals_subset hnode hvalue)
  | _, .listLiteral h, hall => .listLiteral fun node hnode =>
    (h node hnode).isExpression fun value hvalue => hall value (literals_subset hnode hvalue)

theorem ResolvedInitial.isInitial {chain : StaticChain} {node : Node}
    (h : ResolvedInitial chain node) (hall : ∀ value ∈ node.literals, allowed value) :
    IsInitial allowed node := by
  cases h with
  | absent => exact .absent
  | present h => exact .present (h.isExpression hall)

mutual

theorem ResolvedStatement.isStatement : ∀ {tables : Tables} {node : Node} {after : Tables},
    ResolvedStatement tables node after → (∀ value ∈ node.literals, allowed value) →
      IsStatement allowed node
  | _, _, _, .discard h, hall => .discard (h.isExpression hall)
  | _, _, _, .declaration h _, hall => .declaration (h.isInitial hall)
  | _, _, _, .assignment hvalue hreceiver, hall =>
    .assignment (hreceiver.isExpression (List.forall_mem_append.mp hall).1)
      (hvalue.isExpression (List.forall_mem_append.mp hall).2)
  | _, _, _, .branch hcondition hthen helse, hall => by
    obtain ⟨hall, hallElse⟩ := List.forall_mem_append.mp hall
    obtain ⟨hallCondition, hallThen⟩ := List.forall_mem_append.mp hall
    exact .branch (hcondition.isExpression hallCondition) (hthen.isStatement hallThen)
      (helse.isStatement hallElse)
  | _, _, _, .switch hcondition hcases, hall =>
    .switch (hcondition.isExpression (List.forall_mem_append.mp hall).1)
      (hcases.isCase (List.forall_mem_append.mp hall).2)
  | _, _, _, .loop hcondition hbody, hall =>
    .loop (hcondition.isExpression (List.forall_mem_append.mp hall).1)
      (hbody.isStatement (List.forall_mem_append.mp hall).2)
  | _, _, _, .ret h _ _, hall => .ret (h.isExpression hall)

theorem ResolvedBlock.isStatement : ∀ {tables : Tables} {nodes : List Node} {after : Tables},
    ResolvedBlock tables nodes after → (∀ value ∈ literalsOfAll nodes, allowed value) →
      ∀ node ∈ nodes, IsStatement allowed node
  | _, _, _, .nil, _ => List.forall_mem_nil _
  | _, _, _, .cons h hrest, hall => List.forall_mem_cons.mpr
      ⟨h.isStatement (List.forall_mem_append.mp hall).1,
        hrest.isStatement (List.forall_mem_append.mp hall).2⟩

theorem ResolvedCases.isCase : ∀ {tables : Tables} {nodes : List Node} {after : Tables},
    ResolvedCases tables nodes after → (∀ value ∈ literalsOfAll nodes, allowed value) →
      ∀ node ∈ nodes, IsCase allowed node
  | _, _, _, .nil, _ => List.forall_mem_nil _
  | _, _, _, .cons hvalue hbody hrest, hall => by
    obtain ⟨hall, hallRest⟩ := List.forall_mem_append.mp hall
    obtain ⟨hallValue, hallBody⟩ := List.forall_mem_append.mp hall
    exact List.forall_mem_cons.mpr
      ⟨.mk (hvalue.isInitial hallValue) (hbody.isStatement hallBody), hrest.isCase hallRest⟩

end

theorem ResolvedProgram.isProgram {node : Node} (h : ResolvedProgram node)
    (hall : ∀ value ∈ node.literals, allowed value) : IsProgram allowed node := by
  cases h with
  | mk hglobals _ hfunctions =>
    obtain ⟨hallGlobals, hallFunctions⟩ := List.forall_mem_append.mp hall
    have hglobal : ∀ {tables node after}, ResolvedGlobal tables node after →
        (∀ value ∈ node.literals, allowed value) → IsGlobal allowed node := by
      rintro _ _ _ ⟨hvalue, -⟩ hall
      exact .mk (hvalue.isInitial hall)
    have hfunction : ∀ {tables node after}, ResolvedFunction tables node after →
        (∀ value ∈ node.literals, allowed value) → IsFunction allowed node := by
      rintro _ _ _ ⟨-, -, hbody⟩ hall
      exact .mk (hbody.isStatement hall)
    refine .mk (fun node hnode => ?_) fun node hnode => ?_
    · exact hglobals.forall_mem (I := fun _ => True) (fun _ h => ⟨hglobal h, trivial⟩) trivial node
        hnode fun value hvalue => hallGlobals value (literals_subset hnode hvalue)
    · exact hfunctions.forall_mem (I := fun _ => True) (fun _ h => ⟨hfunction h, trivial⟩) trivial
        node hnode fun value hvalue => hallFunctions value (literals_subset hnode hvalue)

/-- An accepted tree can be walked, with the literals that it had before. -/
theorem isProgram_of_yields {program annotated : Node} {tables : Tables}
    (hcheck : (checkProgram .initial program).Yields (annotated, tables))
    (hall : ∀ value ∈ program.literals, allowed value) : IsProgram allowed annotated := by
  have herase : annotated.erase = program.erase := by
    have hleaves := annotates_program .initial program
    rwa [Checked.Leaves, hcheck.2] at hleaves
  refine (resolved_program hcheck).isProgram ?_
  rwa [← literals_erase, herase, literals_erase]

/-- A tree that the analysis cannot walk has a node in a place where it has no meaning. -/
theorem not_isProgram_of_misshapen {program : Node} {e : ShapeError}
    (h : (checkProgram .initial program).fault = some (.misshapen e)) :
    ¬IsProgram allowed program :=
  fun hprogram => isVerdict_program hprogram .initial e h

end

end BlockScript

import BlockScript.Proofs.Accepted
import BlockScript.Proofs.Analysis.Annotation
import BlockScript.Proofs.Analysis.Resolved
import BlockScript.Proofs.Exiting.Activation
import BlockScript.Proofs.Json.Tree
import BlockScript.Proofs.Naming.Apart
import BlockScript.Proofs.Renaming.Tree
/-!
# Returns and the result of their function

The type of a result stands in the table of the body among the variables, under a name that source
texts cannot spell. So in an accepted tree without a variable of that name, returns at any depth
have values that the result of their own function accepts, and no use of a variable is bound to the
entry.

Trees that were read may spell the name. A declaration of it in a block hides the entry from the
returns in the block, and a use of it finds the entry: neither is refused.

## Main definitions

* `Node.BoundAs` — uses of variables that have bindings of certain names
* `Node.FitsResult` — functions whose returns the result accepts

## Main results

* `returns_are_accepted` — trees without a variable of the reserved name
* `reservedTree_is_accepted` — a tree with such variables
-/

namespace BlockScript

open Tables (Keyed)

namespace Node

/-! ### Names and annotations -/

mutual

theorem variableNames_erase : ∀ node : Node, node.erase.variableNames = node.variableNames
  | null | literal .. => rfl
  | group inner _ | discard inner | ret inner => variableNames_erase inner
  | binary _ left right _ | assignment left right =>
    congrArg₂ _ (variableNames_erase left) (variableNames_erase right)
  | access name value _ _ | declaration name _ value _ | global name _ _ value _ _ =>
    congrArg (name :: ·) (variableNames_erase value)
  | call _ nodes _ _ | listLiteral nodes _ => variableNamesInAll_eraseAll nodes
  | branch condition thenBody elseBody =>
    congrArg₂ _ (variableNames_erase condition)
      (congrArg₂ _ (variableNamesInAll_eraseAll thenBody) (variableNamesInAll_eraseAll elseBody))
  | case head body | switch head body | loop head body =>
    congrArg₂ _ (variableNames_erase head) (variableNamesInAll_eraseAll body)
  | function _ parameters _ _ body _ =>
    congrArg (parameters ++ ·) (variableNamesInAll_eraseAll body)
  | program globals functions =>
    congrArg₂ _ (variableNamesInAll_eraseAll globals) (variableNamesInAll_eraseAll functions)

theorem variableNamesInAll_eraseAll : ∀ nodes : List Node,
    variableNamesInAll (eraseAll nodes) = variableNamesInAll nodes
  | [] => rfl
  | node :: rest => congrArg₂ _ (variableNames_erase node) (variableNamesInAll_eraseAll rest)

end

theorem variableNames_subset {node : Node} {nodes : List Node} (h : node ∈ nodes) :
    node.variableNames ⊆ variableNamesInAll nodes := by
  induction nodes with
  | nil => cases h
  | cons first rest ih =>
    rcases List.mem_cons.mp h with rfl | h
    · exact List.subset_append_left _ _
    · exact fun name hname => List.mem_append_right _ (ih h hname)

/-- The bindings that uses of variables have got are of certain names. -/
def BoundAs (names : List String) (uses : List (String × Option Binding)) : Prop :=
  ∀ use ∈ uses, ∀ binding, use.2 = some binding → binding.name ∈ names

namespace BoundAs

variable {names more : List String} {uses others : List (String × Option Binding)}

theorem nil : BoundAs names [] :=
  List.forall_mem_nil _

theorem append (h : BoundAs names uses) (h' : BoundAs more others) :
    BoundAs (names ++ more) (uses ++ others) :=
  List.forall_mem_append.mpr
    ⟨fun use hmem binding hbinding => List.mem_append_left _ (h use hmem binding hbinding),
      fun use hmem binding hbinding => List.mem_append_right _ (h' use hmem binding hbinding)⟩

theorem cons {binding : Binding} (h : BoundAs names uses) :
    BoundAs (binding.name :: names) ((binding.name, some binding) :: uses) := by
  refine List.forall_mem_cons.mpr ⟨?_, fun use hmem found hfound => ?_⟩
  · intro found hfound
    cases hfound
    exact List.mem_cons_self
  · exact List.mem_cons_of_mem _ (h use hmem found hfound)

theorem of_subset (h : BoundAs names uses) (hsubset : names ⊆ more) : BoundAs more uses :=
  fun use hmem binding hbinding => hsubset (h use hmem binding hbinding)

end BoundAs

end Node

open Node (BoundAs uses usesInAll variableNames variableNamesInAll returnedIn)

/-! ### Uses of variables -/

theorem boundAs_all {nodes : List Node}
    (h : ∀ node ∈ nodes, BoundAs node.variableNames (node.uses .any)) :
    BoundAs (variableNamesInAll nodes) (usesInAll .any nodes) := by
  induction nodes with
  | nil => exact .nil
  | cons node rest ih =>
    obtain ⟨hnode, hrest⟩ := List.forall_mem_cons.mp h
    exact hnode.append (ih hrest)

section

variable {chain : StaticChain}

/-- Every use of a variable is bound to a variable of its own name. -/
theorem Resolved.boundAs (hkeyed : Keyed chain) : ∀ {node : Node},
    Resolved chain node → BoundAs node.variableNames (node.uses .any)
  | _, .literal => .nil
  | _, .group h => h.boundAs hkeyed
  | _, .binary hleft hright => (hleft.boundAs hkeyed).append (hright.boundAs hkeyed)
  | _, .variable hfound => by
    obtain rfl := hkeyed.name_eq hfound
    exact .cons .nil
  | _, .element h hfound => by
    obtain rfl := hkeyed.name_eq hfound
    exact .cons (h.boundAs hkeyed)
  | _, .call _ h => boundAs_all fun node hnode => (h node hnode).boundAs hkeyed
  | _, .listLiteral h => boundAs_all fun node hnode => (h node hnode).boundAs hkeyed

theorem ResolvedInitial.boundAs (hkeyed : Keyed chain) {value : Node}
    (h : ResolvedInitial chain value) : BoundAs value.variableNames (value.uses .any) := by
  cases h with
  | absent => exact .nil
  | present h => exact h.boundAs hkeyed

end

mutual

theorem ResolvedStatement.boundAs : ∀ {tables : Tables} {node : Node} {after : Tables},
    ResolvedStatement tables node after → Keyed tables.chain →
      BoundAs node.variableNames (node.uses .any)
  | _, _, _, .discard h, hkeyed => h.boundAs hkeyed
  | _, _, _, .declaration h _, hkeyed => (h.boundAs hkeyed).of_subset (List.subset_cons_self _ _)
  | _, _, _, .assignment hvalue hreceiver, hkeyed =>
    (hreceiver.boundAs hkeyed).append (hvalue.boundAs hkeyed)
  | _, _, _, .branch hcondition hthen helse, hkeyed => by
    rw [uses, List.append_assoc]
    exact (hcondition.boundAs hkeyed).append
      ((hthen.boundAs hkeyed.enter).append (helse.boundAs hkeyed.resume.enter))
  | _, _, _, .switch hcondition hcases, hkeyed =>
    (hcondition.boundAs hkeyed).append (hcases.boundAs hkeyed)
  | _, _, _, .loop hcondition hbody, hkeyed =>
    (hcondition.boundAs hkeyed).append (hbody.boundAs hkeyed.enter)
  | _, _, _, .ret h _ _, hkeyed => h.boundAs hkeyed

theorem ResolvedBlock.boundAs : ∀ {tables : Tables} {nodes : List Node} {after : Tables},
    ResolvedBlock tables nodes after → Keyed tables.chain →
      BoundAs (variableNamesInAll nodes) (usesInAll .any nodes)
  | _, _, _, .nil, _ => .nil
  | _, _, _, .cons h hrest, hkeyed =>
    (h.boundAs hkeyed).append (hrest.boundAs (h.keyed hkeyed))

theorem ResolvedCases.boundAs : ∀ {tables : Tables} {nodes : List Node} {after : Tables},
    ResolvedCases tables nodes after → Keyed tables.chain →
      BoundAs (variableNamesInAll nodes) (usesInAll .any nodes)
  | _, _, _, .nil, _ => .nil
  | _, _, _, .cons hvalue hbody hrest, hkeyed =>
    ((hvalue.boundAs hkeyed).append (hbody.boundAs hkeyed.enter)).append
      (hrest.boundAs hkeyed.resume)

end

/-! ### Returns -/

section

variable {result : Binding}

theorem ResolvedStatement.findVariable?_returnName {tables after : Tables} {node : Node}
    (h : ResolvedStatement tables node after) (hname : returnName ∉ node.variableNames) :
    after.chain.findVariable? returnName = tables.chain.findVariable? returnName := by
  rcases h.cases_chain with hchain | ⟨name, typeName, value, type, binding, rfl, hdeclare⟩
  · rw [hchain]
  · rw [(Tables.findVariable?_of_declare returnName hdeclare).2, if_neg]
    exact List.ne_of_not_mem_cons hname

theorem findVariable?_enter {tables : Tables} {name : String} :
    tables.enter.chain.findVariable? name = tables.chain.findVariable? name :=
  Chain.findVariable?_cons

mutual

/-- Without another variable of its name, the entry for the result is the one that all returns in a
statement are checked against. -/
theorem ResolvedStatement.returned : ∀ {tables : Tables} {node : Node} {after : Tables},
    ResolvedStatement tables node after → returnName ∉ node.variableNames →
      tables.chain.findVariable? returnName = some result →
        ∀ value ∈ node.returned, Ty.accepts result.type value.type? = true
  | _, _, _, .discard _, _, _ | _, _, _, .declaration _ _, _, _
  | _, _, _, .assignment _ _, _, _ => List.forall_mem_nil _
  | _, _, _, .branch _ hthen helse, hname, hresult => by
    have hbodies := mt (List.mem_append_right _) hname
    exact List.forall_mem_append.mpr
      ⟨hthen.returned (mt (List.mem_append_left _) hbodies) (findVariable?_enter.trans hresult),
        helse.returned (mt (List.mem_append_right _) hbodies) (findVariable?_enter.trans hresult)⟩
  | _, _, _, .switch _ hcases, hname, hresult =>
    hcases.returned (mt (List.mem_append_right _) hname) hresult
  | _, _, _, .loop _ hbody, hname, hresult =>
    hbody.returned (mt (List.mem_append_right _) hname) (findVariable?_enter.trans hresult)
  | _, _, _, .ret _ hfound haccepts, _, hresult => by
    obtain rfl := Option.some.inj (hfound.symm.trans hresult)
    exact List.forall_mem_singleton.mpr haccepts

theorem ResolvedBlock.returned : ∀ {tables : Tables} {nodes : List Node} {after : Tables},
    ResolvedBlock tables nodes after → returnName ∉ variableNamesInAll nodes →
      tables.chain.findVariable? returnName = some result →
        ∀ value ∈ returnedIn nodes, Ty.accepts result.type value.type? = true
  | _, _, _, .nil, _, _ => List.forall_mem_nil _
  | _, _, _, .cons h hrest, hname, hresult => by
    have hnode := mt (List.mem_append_left _) hname
    have hbetween := (h.findVariable?_returnName hnode).trans hresult
    exact List.forall_mem_append.mpr
      ⟨h.returned hnode hresult, hrest.returned (mt (List.mem_append_right _) hname) hbetween⟩

theorem ResolvedCases.returned : ∀ {tables : Tables} {nodes : List Node} {after : Tables},
    ResolvedCases tables nodes after → returnName ∉ variableNamesInAll nodes →
      tables.chain.findVariable? returnName = some result →
        ∀ value ∈ returnedIn nodes, Ty.accepts result.type value.type? = true
  | _, _, _, .nil, _, _ => List.forall_mem_nil _
  | _, _, _, .cons _ hbody hrest, hname, hresult => by
    have hcase := mt (List.mem_append_left _) hname
    exact List.forall_mem_append.mpr
      ⟨hbody.returned (mt (List.mem_append_right _) hcase) (findVariable?_enter.trans hresult),
        hrest.returned (mt (List.mem_append_right _) hname) hresult⟩

end

end

/-- The table of a body has the type of the result, which no parameter hides. -/
theorem exists_result_of_bodyTables {tables inside : Tables} {f : Signature}
    {parameters : List String} (h : bodyTables tables f parameters = .ok inside) :
    ∃ result, inside.chain.findVariable? returnName = some result ∧
      result.type = some f.result := by
  have hinner : ∃ result, inside.inner.findVariable? returnName = some result ∧
      result.type = some f.result := by
    refine holds_of_bodyTables (P := fun tables => ∃ result,
      tables.inner.findVariable? returnName = some result ∧ result.type = some f.result) ?_ ?_ h
    · intro binding start hstart
      refine ⟨binding, ?_, ?_⟩
      · rw [(Tables.findVariable?_of_declare returnName hstart).1, if_pos rfl]
      · rw [(Tables.declare_eq_ok_iff.mp hstart).2.1]
    · rintro before after name ty binding ⟨result, hresult, htype⟩ hdeclare
      -- a parameter of this name would be defined twice
      have hname : returnName ≠ name := by
        rintro rfl
        rw [(Tables.declare_eq_ok_iff.mp hdeclare).1] at hresult
        cases hresult
      refine ⟨result, ?_, htype⟩
      rw [(Tables.findVariable?_of_declare returnName hdeclare).1, if_neg hname, hresult]
  obtain ⟨result, hresult, htype⟩ := hinner
  refine ⟨result, ?_, htype⟩
  rw [Tables.chain, Chain.findVariable?_cons, hresult, Option.some_or]

/-- The result of a signature is the one that was declared, or nil. -/
theorem exists_resolveTy_of_signatureOf {name : String} {types : List (Option String)}
    {resultType : Option String} {f : Signature} (h : signatureOf name types resultType = .ok f) :
    ∃ declared, resolveTy resultType = .ok declared ∧ f.result = declared.getD .nil := by
  unfold signatureOf at h
  cases hparameters : types.mapM fun typeName => do
      return (← resolveTy typeName).getD Ty.any with
  | error e =>
    rw [hparameters] at h
    cases h
  | ok parameters =>
    rw [hparameters] at h
    cases hresult : resolveTy resultType with
    | error e =>
      rw [hresult] at h
      cases h
    | ok result =>
      rw [hresult] at h
      cases h
      exact ⟨result, rfl, rfl⟩

/-! ### Programs -/

/-- No source text has a variable of the reserved name. -/
theorem returnName_notMem_of_parseProgram {source : String} {program : Node}
    (h : parseProgram source = .ok program) : returnName ∉ program.variableNames := by
  intro hmem
  obtain ⟨token, htoken, -, htext⟩ :=
    isName_of_parseProgram h returnName (Node.mem_names program (.inl hmem))
  exact ne_returnName_of_lexed htoken htext

theorem ResolvedGlobal.boundAs {tables after : Tables} {node : Node}
    (h : ResolvedGlobal tables node after) (hkeyed : Keyed tables.chain) :
    BoundAs node.variableNames (node.uses .any) ∧ Keyed after.chain := by
  cases h with
  | mk hvalue hdeclare =>
    exact ⟨(hvalue.boundAs hkeyed).of_subset (List.subset_cons_self _ _), hkeyed.declare hdeclare⟩

theorem ResolvedFunction.boundAs {tables after : Tables} {node : Node}
    (h : ResolvedFunction tables node after) (hkeyed : Keyed tables.chain) :
    BoundAs node.variableNames (node.uses .any) ∧ Keyed after.chain := by
  cases h with
  | mk _ hinside hbody =>
    have hbound := hbody.boundAs (hkeyed.bodyTables hinside)
    exact ⟨hbound.of_subset (List.subset_append_right _ _), hkeyed⟩

theorem ResolvedProgram.boundAs {node : Node} (h : ResolvedProgram node) :
    BoundAs node.variableNames (node.uses .any) := by
  cases h with
  | mk hglobals hkeyed hfunctions =>
    have hglobals := hglobals.forall_mem (I := fun tables => Keyed tables.chain)
      (fun hkeyed h => h.boundAs hkeyed) Tables.keyed_initial
    have hfunctions := hfunctions.forall_mem (I := fun tables => Keyed tables.chain)
      (fun hkeyed h => h.boundAs hkeyed) hkeyed
    exact (boundAs_all hglobals).append (boundAs_all hfunctions)

/-- The declared result of a function accepts the values of all returns in its body. -/
def Node.FitsResult : Node → Prop
  | .function _ _ _ resultType body _ => ∃ declared, resolveTy resultType = .ok declared ∧
      ∀ value ∈ returnedIn body, Ty.accepts (some (declared.getD .nil)) value.type? = true
  | _ => True

theorem ResolvedFunction.fitsResult {tables after : Tables} {node : Node}
    (h : ResolvedFunction tables node after) (hname : returnName ∉ node.variableNames) :
    node.FitsResult := by
  cases h with
  | mk hsignature hinside hbody =>
    obtain ⟨declared, hdeclared, hresult⟩ := exists_resolveTy_of_signatureOf hsignature
    obtain ⟨binding, hbinding, htype⟩ := exists_result_of_bodyTables hinside
    refine ⟨declared, hdeclared, ?_⟩
    rw [← hresult, ← htype]
    exact hbody.returned (mt (List.mem_append_right _) hname) hbinding

/-- In an accepted tree that is the tree of a source text, or has no variable of the reserved name,
every return of a function has a value that the declared result of the function accepts, or nil
without one. And no use of a variable, in a function or anywhere else, is bound to the entry that
results stand under. -/
theorem returns_are_accepted {program annotated : Node} {tables : Tables}
    (hcheck : (checkProgram .initial program).Yields (annotated, tables))
    (hname : returnName ∉ program.variableNames ∨ ∃ source, parseProgram source = .ok program) :
    (∀ use ∈ annotated.uses .any, ∀ binding, use.2 = some binding → binding.name ≠ returnName) ∧
      ∃ globals functions, annotated = .program globals functions ∧
        ∀ node ∈ functions, node.FitsResult := by
  have hnone : returnName ∉ annotated.variableNames := by
    have herase : annotated.erase = program.erase := by
      have hleaves := annotates_program .initial program
      rwa [Checked.Leaves, hcheck.2] at hleaves
    rw [← Node.variableNames_erase, herase, Node.variableNames_erase]
    rcases hname with h | ⟨source, hparse⟩
    · exact h
    · exact returnName_notMem_of_parseProgram hparse
  have hresolved := resolved_program hcheck
  constructor
  · intro use hmem binding hbinding heq
    exact hnone (heq ▸ hresolved.boundAs use hmem binding hbinding)
  · cases hresolved with
    | @mk globals functions _ _ _ _ _ hfunctions =>
      have hnames : ∀ node ∈ functions, returnName ∉ node.variableNames := fun node hmem hname =>
        hnone (List.mem_append_right _ (Node.variableNames_subset hmem hname))
      have hfits : ∀ node ∈ functions, returnName ∉ node.variableNames → node.FitsResult :=
        hfunctions.forall_mem (I := fun _ => True)
          (fun _ h => ⟨fun hname => h.fitsResult hname, trivial⟩) trivial
      exact ⟨globals, functions, rfl, fun node hmem => hfits node hmem (hnames node hmem)⟩

theorem returns_are_accepted_sampleTree :
    (checkProgram .initial sampleTree).Yields (checkProgram .initial sampleTree).result ∧
      returnName ∉ sampleTree.variableNames ∧
      ∃ globals functions,
        (checkProgram .initial sampleTree).result.1 = .program globals functions ∧
          ∀ node ∈ functions, node.FitsResult := by
  have hname := returnName_notMem_of_parseProgram parseProgram_sampleSource
  exact ⟨yields_sampleTree, hname, (returns_are_accepted yields_sampleTree.parts (.inl hname)).2⟩

/-- A tree that uses the reserved name, and declares it in a block before a return. -/
def reservedTree : Node :=
  .program []
    [.function "main" [] [] none
      [.declaration "x" none (.access returnName .null none none) none,
        .branch (.literal (.boolean true) none)
          [.declaration returnName (some "Any") .null none, .ret (.literal (.integer 1) none)] []]
      none]

/-- The tree can be read and is accepted, its variable is bound to the entry for the result, and the
return has a value that the result of its function does not accept. -/
theorem reservedTree_is_accepted :
    Node.ofJson reservedTree.toJson = .ok reservedTree ∧
      (checkProgram .initial reservedTree).Yields (checkProgram .initial reservedTree).result ∧
      (∃ use ∈ (checkProgram .initial reservedTree).result.1.uses .any, ∃ binding,
        use.2 = some binding ∧ binding.name = returnName) ∧
      ∃ main, (checkProgram .initial reservedTree).result.1 = .program [] [main] ∧
        ¬main.FitsResult := by
  refine ⟨Node.ofJson_toJson (by decide), ⟨by cbv, rfl⟩, ?_, ?_⟩
  · exact ⟨_, List.mem_cons_self, _, rfl, rfl⟩
  · refine ⟨_, rfl, ?_⟩
    rintro ⟨declared, hdeclared, hfits⟩
    cases hdeclared
    exact absurd (hfits _ List.mem_cons_self) (by decide)

end BlockScript

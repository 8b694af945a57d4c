import BlockScript.Proofs.Analysis.Program
/-!
# Names that are declared are told apart

No two nodes of an accepted program introduce bindings with the same number, and no two functions
have the same signature, nor has any that of `print`. So a binding belongs to one node of the
program, and a signature to one function.

## Main definitions

* `Node.introduced` — the bindings that the nodes of a tree introduce
* `Node.signature?` — the signature of a function

## Main results

* `TypedProgram.numbers_nodup`, `TypedProgram.signatures_nodup`
-/

namespace BlockScript

namespace Node

mutual

/-- The bindings that global variables and declarations introduce. Those of parameters are not in
the tree. -/
def introduced : Node → List Binding
  | declaration _ _ _ binding => binding.toList
  | branch _ thenBody elseBody => introducedAll thenBody ++ introducedAll elseBody
  | case _ body => introducedAll body
  | switch _ cases => introducedAll cases
  | loop _ body => introducedAll body
  | global _ _ _ _ _ binding => binding.toList
  | function _ _ _ _ body _ => introducedAll body
  | program globals functions => introducedAll globals ++ introducedAll functions
  | _ => []

/-- The bindings that several trees introduce. -/
def introducedAll : List Node → List Binding
  | [] => []
  | node :: rest => node.introduced ++ introducedAll rest

end

/-- The signature of a function that was declared. -/
def signature? : Node → Option Signature
  | function _ _ _ _ _ signature => signature
  | _ => none

end Node

open Node (introducedAll)
open scoped List

/-! ### Bindings -/

/-- The bindings have different numbers, from `low` up to but without `high`. -/
structure Numbered (bindings : List Binding) (low high : Nat) : Prop where
  le : low ≤ high
  nodup : (bindings.map Binding.number).Nodup
  mem : ∀ binding ∈ bindings, low ≤ binding.number ∧ binding.number < high

namespace Numbered

variable {bindings others : List Binding} {low middle high : Nat}

theorem nil (h : low ≤ high) : Numbered [] low high :=
  ⟨h, .nil, by simp⟩

theorem append (h : Numbered bindings low middle) (h' : Numbered others middle high) :
    Numbered (bindings ++ others) low high := by
  refine ⟨Nat.le_trans h.le h'.le, ?_, ?_⟩
  · rw [List.map_append]
    refine h.nodup.append h'.nodup ?_
    -- a number of both would be less than `middle`, and not less
    intro number hleft hright
    obtain ⟨binding, hmem, rfl⟩ := List.mem_map.mp hleft
    obtain ⟨other, hother, heq⟩ := List.mem_map.mp hright
    have hlt := (h.mem binding hmem).2
    have hle := (h'.mem other hother).1
    omega
  · intro binding hmem
    rcases List.mem_append.mp hmem with hmem | hmem
    · exact ⟨(h.mem binding hmem).1, Nat.lt_of_lt_of_le (h.mem binding hmem).2 h'.le⟩
    · exact ⟨Nat.le_trans h.le (h'.mem binding hmem).1, (h'.mem binding hmem).2⟩

theorem perm (h : Numbered bindings low high) (hperm : bindings.Perm others) :
    Numbered others low high :=
  ⟨h.le, (hperm.map _).nodup_iff.mp h.nodup, fun binding hmem =>
    h.mem binding (hperm.mem_iff.mpr hmem)⟩

/-- A declaration introduces its binding. -/
theorem of_declare {tables after : Tables} {name : String} {type : Option Ty}
    {mutable isList : Bool} {binding : Binding}
    (h : tables.declare name type mutable isList = .ok (binding, after)) :
    Numbered [binding] tables.fresh after.fresh := by
  obtain ⟨-, rfl, rfl⟩ := Tables.declare_eq_ok_iff.mp h
  exact ⟨Nat.le_succ _, List.nodup_singleton _, by simp⟩

end Numbered

mutual

theorem TypedStatement.numbered : ∀ {tables : Tables} {node : Node} {after : Tables},
    TypedStatement tables node after → Numbered node.introduced tables.fresh after.fresh
  | _, _, _, .discard _ => .nil (Nat.le_refl _)
  | _, _, _, .declaration _ _ hdeclare => .of_declare hdeclare
  | _, _, _, .assignment _ _ _ _ => .nil (Nat.le_refl _)
  | tables, _, _, @TypedStatement.branch _ _ _ _ inThen inElse _ hthen helse => by
    have hnumberedThen : Numbered _ tables.fresh inThen.fresh := hthen.numbered
    have hnumberedElse : Numbered _ inThen.fresh inElse.fresh := helse.numbered
    exact hnumberedThen.append hnumberedElse
  | _, _, _, .switch _ hcases => TypedCases.numbered hcases
  | tables, _, _, @TypedStatement.loop _ _ _ inside _ hbody => by
    have hnumbered : Numbered _ tables.fresh inside.fresh := hbody.numbered
    exact hnumbered
  | _, _, _, .ret _ _ _ _ => .nil (Nat.le_refl _)

theorem TypedBlock.numbered : ∀ {tables : Tables} {nodes : List Node} {after : Tables},
    TypedBlock tables nodes after → Numbered (introducedAll nodes) tables.fresh after.fresh
  | _, _, _, .nil => .nil (Nat.le_refl _)
  | _, _, _, .cons h hrest => h.numbered.append hrest.numbered

theorem TypedCases.numbered : ∀ {tables : Tables} {nodes : List Node} {after : Tables},
    TypedCases tables nodes after → Numbered (introducedAll nodes) tables.fresh after.fresh
  | _, _, _, .nil => .nil (Nat.le_refl _)
  | _, _, _, .default hbody hrest => (TypedBlock.numbered hbody).append hrest.numbered
  | _, _, _, .valued _ hbody hrest => (TypedBlock.numbered hbody).append hrest.numbered

end

theorem TypedGlobals.numbered {tables after : Tables} {nodes : List Node}
    (h : TypedGlobals tables nodes after) :
    Numbered (introducedAll nodes) tables.fresh after.fresh := by
  induction h with
  | nil => exact .nil (Nat.le_refl _)
  | cons h _ ih =>
    cases h with
    | list _ _ hdeclare => exact (Numbered.of_declare hdeclare).append ih
    | value _ _ hdeclare => exact (Numbered.of_declare hdeclare).append ih

theorem TypedParameters.numbered {tables after : Tables} {names : List String} {types : List Ty}
    {bindings : List Binding} (h : TypedParameters tables names types bindings after) :
    Numbered bindings tables.fresh after.fresh := by
  induction h with
  | nil => exact .nil (Nat.le_refl _)
  | cons _ hdeclare _ ih => exact (Numbered.of_declare hdeclare).append ih

theorem TypedBody.numbered {tables behind : Tables} {f : Signature} {parameters : List String}
    {bindings : List Binding} {body : List Node}
    (h : TypedBody tables f parameters bindings body behind) :
    Numbered (bindings ++ introducedAll body) tables.fresh behind.fresh := by
  cases h with
  | @mk start _ _ _ hdeclare hparameters hbody =>
    have hstart : Numbered [] tables.fresh start.fresh := .nil (Numbered.of_declare hdeclare).le
    exact hstart.append (hparameters.numbered.append hbody.numbered)

theorem TypedFunctions.numbered {tables after : Tables} {nodes : List Node}
    {bindings : List (List Binding)} (h : TypedFunctions tables nodes bindings after) :
    Numbered (introducedAll nodes ++ bindings.flatten) tables.fresh after.fresh := by
  induction h with
  | nil => exact .nil (Nat.le_refl _)
  | @cons _ _ _ _ _ _ _ body _ own rest others _ hbody _ ih =>
    refine (hbody.numbered.append ih).perm ?_
    -- the parameters of all functions are listed behind all bodies
    show ((own ++ introducedAll body) ++ (introducedAll rest ++ others.flatten)).Perm
      ((introducedAll body ++ introducedAll rest) ++ (own ++ others.flatten))
    simp only [List.append_assoc]
    calc own ++ (introducedAll body ++ (introducedAll rest ++ others.flatten))
      _ ~ introducedAll body ++ (own ++ (introducedAll rest ++ others.flatten)) :=
        List.perm_append_comm_assoc ..
      _ ~ introducedAll body ++ (introducedAll rest ++ (own ++ others.flatten)) :=
        (List.perm_append_comm_assoc ..).append_left _

/-- No two nodes of a program introduce bindings with the same number. -/
theorem TypedProgram.numbers_nodup {globals functions : List Node} {bindings : List (List Binding)}
    (h : TypedProgram globals functions bindings) :
    (((Node.program globals functions).introduced ++ bindings.flatten).map
      Binding.number).Nodup := by
  obtain ⟨behind, declared, after, hglobals, hdeclared, hfunctions⟩ := h.exists_tables
  -- signatures take no numbers
  have hfresh : behind.fresh = declared.fresh := by rw [hdeclared.eq]
  have hnumbered := hglobals.numbered.append (hfresh ▸ hfunctions.numbered)
  rw [← List.append_assoc] at hnumbered
  exact hnumbered.nodup

/-! ### Signatures -/

/-- The names and arities of functions are new in the tables before them. -/
theorem DeclaredFunctions.findFunction?_eq_none {tables after : Tables} {nodes : List Node}
    (h : DeclaredFunctions tables nodes after) :
    ∀ node ∈ nodes, ∃ f, node.signature? = some f ∧ f.javaName = f.name ∧
      tables.inner.findFunction? f.name f.arity = none := by
  induction h with
  | nil => simp
  | @cons _ _ _ _ _ _ _ _ f _ hname hjava _ hdeclare _ ih =>
    obtain ⟨hnew, rfl⟩ := Tables.declareFunction_eq_ok_iff.mp hdeclare
    refine List.forall_mem_cons.mpr ⟨⟨f, rfl, hjava.trans hname.symm, hnew⟩, ?_⟩
    intro node hmem
    obtain ⟨other, hsignature, hsame, hfree⟩ := ih node hmem
    refine ⟨other, hsignature, hsame, ?_⟩
    -- what is new behind the first function is new before it as well
    rw [Frame.findFunction?, List.lookup_append, Option.or_eq_none_iff] at hfree
    exact hfree.1

theorem DeclaredFunctions.signatures_nodup {tables after : Tables} {nodes : List Node}
    (h : DeclaredFunctions tables nodes after) : (nodes.map Node.signature?).Nodup := by
  induction h with
  | nil => exact .nil
  | @cons tables _ _ _ _ _ _ _ f _ _ _ _ hdeclare hrest ih =>
    refine List.nodup_cons.mpr ⟨fun hmem => ?_, ih⟩
    obtain ⟨node, hnode, hsignature⟩ := List.mem_map.mp hmem
    obtain ⟨other, hother, -, hfree⟩ := hrest.findFunction?_eq_none node hnode
    -- the name and arity of the first function are taken when the others are declared
    obtain rfl : other = f := Option.some.inj (hother.symm.trans hsignature)
    obtain ⟨-, rfl⟩ := Tables.declareFunction_eq_ok_iff.mp hdeclare
    simp [Frame.findFunction?, List.lookup_append] at hfree

/-- No two functions of a program have the same signature, and none has that of `print`. -/
theorem TypedProgram.signatures_nodup {globals functions : List Node}
    {bindings : List (List Binding)} (h : TypedProgram globals functions bindings) :
    (some Signature.print :: functions.map Node.signature?).Nodup := by
  obtain ⟨behind, declared, after, -, hdeclared, -⟩ := h.exists_tables
  refine List.nodup_cons.mpr ⟨fun hmem => ?_, hdeclared.signatures_nodup⟩
  obtain ⟨node, hnode, hprint⟩ := List.mem_map.mp hmem
  obtain ⟨f, hf, hjava, -⟩ := hdeclared.findFunction?_eq_none node hnode
  obtain rfl : f = Signature.print := Option.some.inj (hf.symm.trans hprint)
  -- `print` has another name in the emitted code, which no declared function has
  exact absurd hjava (by decide)

end BlockScript

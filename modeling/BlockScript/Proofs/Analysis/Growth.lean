import BlockScript.Proofs.Analysis.Typing
import Mathlib.Data.List.Nodup
/-!
# How tables grow

Going through statements, tables grow by declarations, and numbers are used up by blocks that were
left. What holds of tables and is kept by both holds behind every statement: the variables have
types, the functions stand under their own names, and no two bindings have the same number.

## Main definitions

* `Tables.Grows` — one table of variables grows into another
* `Tables.WellFormed` — variables have types, and functions stand under their names
* `Tables.WellNumbered` — numbers of bindings are all different, and smaller than the next one

## Main results

* `TypedStatement.grows`, `TypedBlock.grows`, `TypedCases.grows` — statements let tables grow
* `Tables.Grows.wellFormed`, `Tables.Grows.wellNumbered` — what is kept
-/

namespace BlockScript

namespace Tables

/-- Tables grow by declarations, and by numbers that are used up. -/
inductive Grows : Tables → Tables → Prop
  | refl {tables} : Grows tables tables
  | skip {tables after fresh} : tables.fresh ≤ fresh → Grows { tables with fresh } after →
      Grows tables after
  | declare {tables between after name ty mutable isList binding} : name ≠ returnName →
      tables.declare name (some ty) mutable isList = .ok (binding, between) →
      Grows between after → Grows tables after

variable {tables between after : Tables}

theorem Grows.trans (h : Grows tables between) (h' : Grows between after) :
    Grows tables after := by
  induction h with
  | refl => exact h'
  | skip hle _ ih => exact .skip hle (ih h')
  | declare hname hdeclare _ ih => exact .declare hname hdeclare (ih h')

/-- Leaving a block uses up the numbers that it took. -/
theorem Grows.resume {inside : Tables} (h : tables.fresh ≤ inside.fresh) :
    Grows tables (tables.resume inside) :=
  .skip h .refl

theorem Grows.outer_eq (h : Grows tables after) : after.outer = tables.outer := by
  induction h with
  | refl => rfl
  | skip _ _ ih => exact ih
  | declare _ hdeclare _ ih =>
    obtain ⟨-, -, rfl⟩ := declare_eq_ok_iff.mp hdeclare
    exact ih

theorem Grows.fresh_le (h : Grows tables after) : tables.fresh ≤ after.fresh := by
  induction h with
  | refl => exact Nat.le_refl _
  | skip hle _ ih => exact Nat.le_trans hle ih
  | declare _ hdeclare _ ih =>
    obtain ⟨-, -, rfl⟩ := declare_eq_ok_iff.mp hdeclare
    exact Nat.le_trans (Nat.le_succ _) ih

/-- The variables of tables have types, and the functions stand under their names. -/
def WellFormed (chain : StaticChain) : Prop :=
  ∀ frame ∈ chain, (∀ entry ∈ frame.vars, ∃ ty, entry.2.type = some ty) ∧
    ∀ entry ∈ frame.funs, entry.1 = (entry.2.name, entry.2.arity)

theorem WellFormed.enter (h : WellFormed tables.chain) : WellFormed tables.enter.chain := by
  intro frame hframe
  rcases List.mem_cons.mp hframe with rfl | hmem
  · exact ⟨fun entry hentry => absurd hentry List.not_mem_nil,
      fun entry hentry => absurd hentry List.not_mem_nil⟩
  · exact h frame hmem

theorem WellFormed.resume {inside : Tables} (h : WellFormed tables.chain) :
    WellFormed (tables.resume inside).chain :=
  h

theorem WellFormed.declare {name : String} {ty : Ty} {mutable isList : Bool} {binding : Binding}
    (h : WellFormed tables.chain)
    (hdeclare : tables.declare name (some ty) mutable isList = .ok (binding, after)) :
    WellFormed after.chain := by
  obtain ⟨-, rfl, rfl⟩ := declare_eq_ok_iff.mp hdeclare
  intro frame hframe
  rcases List.mem_cons.mp hframe with rfl | hmem
  · have hinner := h tables.inner List.mem_cons_self
    refine ⟨fun entry hentry => ?_, hinner.2⟩
    rcases List.mem_append.mp hentry with hold | hnew
    · exact hinner.1 entry hold
    · obtain rfl := List.mem_singleton.mp hnew
      exact ⟨ty, rfl⟩
  · exact h frame (List.mem_cons_of_mem _ hmem)

theorem Grows.wellFormed (hgrows : Grows tables after) (h : WellFormed tables.chain) :
    WellFormed after.chain := by
  induction hgrows with
  | refl => exact h
  | skip _ _ ih => exact ih h
  | declare _ hdeclare _ ih => exact ih (h.declare hdeclare)

theorem WellFormed.exists_type {chain : StaticChain} {name : String} {binding : Binding}
    (h : WellFormed chain) (hfind : chain.findVariable? name = some binding) :
    ∃ ty, binding.type = some ty := by
  obtain ⟨frame, hframe, hlookup⟩ := List.exists_of_findSome?_eq_some hfind
  obtain ⟨before, behind, hvars, -⟩ := List.lookup_eq_some_iff.mp hlookup
  exact (h frame hframe).1 (name, binding) (by rw [hvars]; simp)

theorem WellFormed.arity_eq {chain : StaticChain} {name : String} {arity : Nat} {f : Signature}
    (h : WellFormed chain) (hfind : chain.findFunction? name arity = some f) :
    f.parameters.length = arity := by
  obtain ⟨frame, hframe, hlookup⟩ := List.exists_of_findSome?_eq_some hfind
  obtain ⟨before, behind, hfuns, -⟩ := List.lookup_eq_some_iff.mp hlookup
  have hkey := (h frame hframe).2 ((name, arity), f) (by rw [hfuns]; simp)
  exact (congrArg Prod.snd hkey).symm

/-- The numbers of all bindings of a chain. -/
def numbers (chain : StaticChain) : List Nat :=
  chain.flatMap fun frame => frame.vars.map fun entry => entry.2.number

/-- Numbers of bindings are all different, and smaller than the next one. -/
def WellNumbered (tables : Tables) : Prop :=
  (numbers tables.chain).Nodup ∧ ∀ number ∈ numbers tables.chain, number < tables.fresh

theorem WellNumbered.enter (h : WellNumbered tables) : WellNumbered tables.enter := by
  simpa [WellNumbered, numbers, chain, Tables.enter] using h

theorem WellNumbered.skip {fresh : Nat} (h : WellNumbered tables) (hle : tables.fresh ≤ fresh) :
    WellNumbered { tables with fresh } :=
  ⟨h.1, fun number hnumber => Nat.lt_of_lt_of_le (h.2 number hnumber) hle⟩

theorem WellNumbered.declare {name : String} {type : Option Ty} {mutable isList : Bool}
    {binding : Binding} (h : WellNumbered tables)
    (hdeclare : tables.declare name type mutable isList = .ok (binding, after)) :
    WellNumbered after := by
  obtain ⟨-, rfl, rfl⟩ := declare_eq_ok_iff.mp hdeclare
  -- the new binding stands behind those of its frame, in front of the outer frames
  have hperm : (numbers ({ tables.inner with vars := tables.inner.vars ++
      [(name, ⟨tables.fresh, name, type, mutable, isList⟩)] } :: tables.outer)).Perm
      (tables.fresh :: numbers tables.chain) := by
    simp only [numbers, chain, List.flatMap_cons, List.map_append, List.map_cons, List.map_nil,
      List.append_assoc, List.singleton_append]
    exact List.perm_middle
  constructor
  · refine hperm.nodup_iff.mpr (List.nodup_cons.mpr ⟨fun hmem => ?_, h.1⟩)
    exact Nat.lt_irrefl _ (h.2 _ hmem)
  · intro number hnumber
    rcases List.mem_cons.mp (hperm.mem_iff.mp hnumber) with rfl | hold
    · exact Nat.lt_succ_self _
    · exact Nat.lt_succ_of_lt (h.2 number hold)

theorem Grows.wellNumbered (hgrows : Grows tables after) (h : WellNumbered tables) :
    WellNumbered after := by
  induction hgrows with
  | refl => exact h
  | skip hle _ ih => exact ih (h.skip hle)
  | declare _ hdeclare _ ih => exact ih (h.declare hdeclare)

end Tables

/-! ### Statements -/

open Tables (Grows)

mutual

theorem TypedStatement.grows : ∀ {tables : Tables} {node : Node} {after : Tables},
    TypedStatement tables node after → Grows tables after
  | _, _, _, .discard _ => .refl
  | _, _, _, .declaration hname _ hdeclare => .declare hname hdeclare .refl
  | _, _, _, .assignment _ _ _ _ => .refl
  | tables, _, _, @TypedStatement.branch _ _ _ _ inThen inElse _ hthen helse => by
    -- the tables of the parts are left again; only their numbers stay used up
    have hle : tables.fresh ≤ inThen.fresh := hthen.grows.fresh_le
    have hle' : inThen.fresh ≤ inElse.fresh := helse.grows.fresh_le
    exact .resume (Nat.le_trans hle hle')
  | _, _, _, .switch _ hcases => hcases.grows
  | _, _, _, .loop _ hbody => .resume (TypedBlock.grows hbody).fresh_le
  | _, _, _, .ret _ _ _ _ => .refl

theorem TypedBlock.grows : ∀ {tables : Tables} {nodes : List Node} {after : Tables},
    TypedBlock tables nodes after → Grows tables after
  | _, _, _, .nil => .refl
  | _, _, _, .cons h hrest => h.grows.trans hrest.grows

theorem TypedCases.grows : ∀ {tables : Tables} {nodes : List Node} {after : Tables},
    TypedCases tables nodes after → Grows tables after
  | _, _, _, .nil => .refl
  | tables, _, _, @TypedCases.default _ inside _ _ _ hbody hrest => by
    have hle : tables.fresh ≤ inside.fresh := hbody.grows.fresh_le
    exact (Grows.resume hle).trans hrest.grows
  | tables, _, _, @TypedCases.valued _ inside _ _ _ _ _ _ hbody hrest => by
    have hle : tables.fresh ≤ inside.fresh := hbody.grows.fresh_le
    exact (Grows.resume hle).trans hrest.grows

end

theorem TypedParameters.grows {tables after : Tables} {names : List String} {types : List Ty}
    {bindings : List Binding} (h : TypedParameters tables names types bindings after) :
    tables.Grows after := by
  induction h with
  | nil => exact .refl
  | cons hname hdeclare _ ih => exact .declare hname hdeclare ih

theorem TypedBody.fresh_le {tables behind : Tables} {f : Signature} {parameters : List String}
    {bindings : List Binding} {body : List Node}
    (h : TypedBody tables f parameters bindings body behind) : tables.fresh ≤ behind.fresh := by
  cases h with
  | mk hdeclare hparameters hbody =>
    have hle := Nat.le_trans hparameters.grows.fresh_le hbody.grows.fresh_le
    -- the first number goes to the entry for the result
    obtain ⟨-, -, rfl⟩ := Tables.declare_eq_ok_iff.mp hdeclare
    exact Nat.le_trans (Nat.le_succ _) hle

/-- The cases of a switch leave no declarations behind. -/
theorem TypedCases.inner_eq {tables after : Tables} {nodes : List Node}
    (h : TypedCases tables nodes after) : after.inner = tables.inner := by
  induction nodes generalizing tables with
  | nil =>
    cases h
    rfl
  | cons node rest ih =>
    cases h with
    | default _ hrest =>
      have hinner := ih hrest
      exact hinner
    | valued _ _ hrest =>
      have hinner := ih hrest
      exact hinner

/-- Cases only use up numbers. -/
theorem TypedCases.eq_resume {tables after : Tables} {nodes : List Node}
    (h : TypedCases tables nodes after) : after = tables.resume after := by
  rw [Tables.resume, ← h.inner_eq, ← h.grows.outer_eq]

end BlockScript

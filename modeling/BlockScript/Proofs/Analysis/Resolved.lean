import BlockScript.Proofs.Analysis.Program
/-!
# What accepted trees have in common

A tree that was read may be accepted without being the tree of a source text: it may use any names,
have lists in any place, and variables without types. Here is what is known of every tree that the
analysis finds no fault in. Its nodes stand where they have a meaning, each use of a variable has
the binding that the tables have for it, and each return has a value that the innermost entry for
the result accepts.

The rules are those of `BlockScript.Proofs.Analysis.Typing` without what they say about types.

## Main definitions

* `Tables.Keyed` — tables whose entries stand under their own names
* `Resolved`, `ResolvedStatement`, `ResolvedBlock`, `ResolvedCases` — annotated trees in given
  tables
* `ResolvedProgram` — programs

## Main results

* `resolved_expression`, `resolved_statement`, `resolved_program` — accepted trees are resolved
-/

namespace BlockScript

open Checked

/-! ### Tables -/

namespace Tables

/-- Variables and functions stand under their own names. -/
def Keyed (chain : StaticChain) : Prop :=
  ∀ frame ∈ chain, (∀ entry ∈ frame.vars, entry.2.name = entry.1) ∧
    ∀ entry ∈ frame.funs, (entry.2.name, entry.2.arity) = entry.1

variable {tables after : Tables} {name : String}

theorem keyed_initial : Keyed initial.chain := by
  have hbuiltins : ∀ entry ∈ builtins.funs, (entry.2.name, entry.2.arity) = entry.1 :=
    List.forall_mem_singleton.mpr rfl
  exact List.forall_mem_cons.mpr ⟨⟨List.forall_mem_nil _, List.forall_mem_nil _⟩,
    List.forall_mem_singleton.mpr ⟨List.forall_mem_nil _, hbuiltins⟩⟩

theorem Keyed.enter (h : Keyed tables.chain) : Keyed tables.enter.chain :=
  List.forall_mem_cons.mpr ⟨⟨List.forall_mem_nil _, List.forall_mem_nil _⟩, h⟩

theorem Keyed.resume {inside : Tables} (h : Keyed tables.chain) :
    Keyed (tables.resume inside).chain :=
  h

theorem Keyed.declare {type : Option Ty} {mutable isList : Bool} {binding : Binding}
    (h : Keyed tables.chain)
    (hdeclare : tables.declare name type mutable isList = .ok (binding, after)) :
    Keyed after.chain := by
  obtain ⟨-, rfl, rfl⟩ := declare_eq_ok_iff.mp hdeclare
  obtain ⟨⟨hvars, hfuns⟩, houter⟩ := List.forall_mem_cons.mp h
  refine List.forall_mem_cons.mpr ⟨⟨?_, hfuns⟩, houter⟩
  exact List.forall_mem_append.mpr ⟨hvars, List.forall_mem_singleton.mpr rfl⟩

theorem Keyed.declareFunction {f : Signature} (h : Keyed tables.chain)
    (hdeclare : tables.declareFunction f = .ok after) : Keyed after.chain := by
  obtain ⟨-, rfl⟩ := declareFunction_eq_ok_iff.mp hdeclare
  obtain ⟨⟨hvars, hfuns⟩, houter⟩ := List.forall_mem_cons.mp h
  refine List.forall_mem_cons.mpr ⟨⟨hvars, ?_⟩, houter⟩
  exact List.forall_mem_append.mpr ⟨hfuns, List.forall_mem_singleton.mpr rfl⟩

theorem Keyed.name_eq {chain : StaticChain} {binding : Binding} (h : Keyed chain)
    (hfind : chain.findVariable? name = some binding) : binding.name = name := by
  obtain ⟨frame, hframe, hlookup⟩ := List.exists_of_findSome?_eq_some hfind
  obtain ⟨before, behind, hvars, -⟩ := List.lookup_eq_some_iff.mp hlookup
  exact (h frame hframe).1 (name, binding) (by simp [hvars])

theorem Keyed.arity_eq {chain : StaticChain} {arity : Nat} {f : Signature} (h : Keyed chain)
    (hfind : chain.findFunction? name arity = some f) : f.parameters.length = arity := by
  obtain ⟨frame, hframe, hlookup⟩ := List.exists_of_findSome?_eq_some hfind
  obtain ⟨before, behind, hfuns, -⟩ := List.lookup_eq_some_iff.mp hlookup
  exact congrArg Prod.snd ((h frame hframe).2 ((name, arity), f) (by simp [hfuns]))

end Tables

open Tables (Keyed)

/-! ### The rules -/

/-- An expression with bindings and signatures from the tables. -/
inductive Resolved (chain : StaticChain) : Node → Prop
  | literal {value} : Resolved chain (.literal value (some value.ty))
  | group {inner} : Resolved chain inner → Resolved chain (.group inner inner.type?)
  | binary {symbol left right type} : Resolved chain left → Resolved chain right →
      Resolved chain (.binary symbol left right type)
  | variable {name binding} : chain.findVariable? name = some binding →
      Resolved chain (.access name .null binding.type (some binding))
  | element {name offset binding} : Resolved chain offset →
      chain.findVariable? name = some binding →
      Resolved chain (.access name offset binding.type (some binding))
  | call {name arguments f} : chain.findFunction? name arguments.length = some f →
      (∀ argument ∈ arguments, Resolved chain argument) →
      Resolved chain (.call name arguments (some f.result) (some f))
  | listLiteral {values type} : (∀ value ∈ values, Resolved chain value) →
      Resolved chain (.listLiteral values type)

/-- An initial value, which may be absent. -/
inductive ResolvedInitial (chain : StaticChain) : Node → Prop
  | absent : ResolvedInitial chain .null
  | present {value} : Resolved chain value → ResolvedInitial chain value

mutual

/-- A statement, with the tables before and behind it. -/
inductive ResolvedStatement : Tables → Node → Tables → Prop
  | discard {tables expression} : Resolved tables.chain expression →
      ResolvedStatement tables (.discard expression) tables
  | declaration {tables after name typeName value type binding} :
      ResolvedInitial tables.chain value →
      tables.declare name type true false = .ok (binding, after) →
      ResolvedStatement tables (.declaration name typeName value (some binding)) after
  | assignment {tables receiver value} : Resolved tables.chain value →
      Resolved tables.chain receiver → ResolvedStatement tables (.assignment receiver value) tables
  | branch {tables condition thenBody elseBody inThen inElse} :
      Resolved tables.chain condition → ResolvedBlock tables.enter thenBody inThen →
      ResolvedBlock (tables.resume inThen).enter elseBody inElse →
      ResolvedStatement tables (.branch condition thenBody elseBody) (tables.resume inElse)
  | switch {tables after condition cases} : Resolved tables.chain condition →
      ResolvedCases tables cases after → ResolvedStatement tables (.switch condition cases) after
  | loop {tables condition body inside} : Resolved tables.chain condition →
      ResolvedBlock tables.enter body inside →
      ResolvedStatement tables (.loop condition body) (tables.resume inside)
  | ret {tables value result} : Resolved tables.chain value →
      tables.chain.findVariable? returnName = some result →
      Ty.accepts result.type value.type? = true → ResolvedStatement tables (.ret value) tables

/-- Statements in a row. -/
inductive ResolvedBlock : Tables → List Node → Tables → Prop
  | nil {tables} : ResolvedBlock tables [] tables
  | cons {tables between after statement rest} : ResolvedStatement tables statement between →
      ResolvedBlock between rest after → ResolvedBlock tables (statement :: rest) after

/-- The cases of a switch. The default case has no value. -/
inductive ResolvedCases : Tables → List Node → Tables → Prop
  | nil {tables} : ResolvedCases tables [] tables
  | cons {tables inside after value body rest} : ResolvedInitial tables.chain value →
      ResolvedBlock tables.enter body inside → ResolvedCases (tables.resume inside) rest after →
      ResolvedCases tables (.case value body :: rest) after

end

/-- A global variable, with the tables before and behind it. -/
inductive ResolvedGlobal : Tables → Node → Tables → Prop
  | mk {tables after name mutable typeName value type isList binding} :
      ResolvedInitial tables.chain value →
      tables.declare name type mutable isList = .ok (binding, after) →
      ResolvedGlobal tables (.global name mutable typeName value isList (some binding)) after

/-- A function with a signature of its declared types, in tables that have all signatures. -/
inductive ResolvedFunction : Tables → Node → Tables → Prop
  | mk {tables inside behind name parameters types resultType body f} :
      signatureOf name types resultType = .ok f → bodyTables tables f parameters = .ok inside →
      ResolvedBlock inside body behind →
      ResolvedFunction tables
        (.function name parameters types resultType body (some f)) (tables.resume behind)

/-- Nodes in a row, each in the tables that the one before it has left. -/
inductive ResolvedEach (rule : Tables → Node → Tables → Prop) : Tables → List Node → Tables → Prop
  | nil {tables} : ResolvedEach rule tables [] tables
  | cons {tables between after node rest} : rule tables node between →
      ResolvedEach rule between rest after → ResolvedEach rule tables (node :: rest) after

/-- A whole program. -/
inductive ResolvedProgram : Node → Prop
  | mk {globals functions behind declared after} :
      ResolvedEach ResolvedGlobal .initial globals behind → Keyed declared.chain →
      ResolvedEach ResolvedFunction declared functions after →
      ResolvedProgram (.program globals functions)

theorem Resolved.isNull_eq {chain : StaticChain} {node : Node} (h : Resolved chain node) :
    node.isNull = false := by
  cases h <;> rfl

/-- Cases leave the tables behind that they were given, up to numbers. -/
theorem ResolvedCases.chain_eq {tables after : Tables} {nodes : List Node}
    (h : ResolvedCases tables nodes after) : after.chain = tables.chain := by
  induction nodes generalizing tables with
  | nil =>
    cases h
    rfl
  | cons node rest ih =>
    cases h with
    | @cons _ inside _ _ _ _ _ _ hrest => exact (ih hrest).trans rfl

/-- A statement declares at most the variable that it introduces. -/
theorem ResolvedStatement.cases_chain {tables after : Tables} {node : Node}
    (h : ResolvedStatement tables node after) :
    after.chain = tables.chain ∨ ∃ name typeName value type binding,
      node = .declaration name typeName value (some binding) ∧
        tables.declare name type true false = .ok (binding, after) := by
  cases h with
  | declaration _ hdeclare => exact .inr ⟨_, _, _, _, _, rfl, hdeclare⟩
  | switch _ hcases => exact .inl hcases.chain_eq
  | _ => exact .inl rfl

theorem ResolvedStatement.keyed {tables after : Tables} {node : Node}
    (h : ResolvedStatement tables node after) (hkeyed : Keyed tables.chain) :
    Keyed after.chain := by
  rcases h.cases_chain with hchain | ⟨_, _, _, _, _, -, hdeclare⟩
  · rwa [hchain]
  · exact hkeyed.declare hdeclare

/-! ### Expressions -/

/-- Arguments that are checked against as many types are all checked. -/
theorem forall_mem_of_checkArguments {chain : StaticChain} {P : Node → Prop} {nodes : List Node}
    (hnodes : ∀ node ∈ nodes, ∀ result, (checkExpression chain node).Yields result → P result) :
    ∀ {types : List Ty} {results : List Node}, nodes.length = types.length →
      (checkArguments chain nodes types).Yields results →
        results.length = nodes.length ∧ ∀ result ∈ results, P result := by
  induction nodes with
  | nil =>
    intro types results hlength h
    obtain rfl : types = [] := List.length_eq_zero_iff.mp hlength.symm
    simp only [checkArguments, yields_done] at h
    subst h
    exact ⟨rfl, List.forall_mem_nil _⟩
  | cons node rest ih =>
    intro types results hlength h
    obtain ⟨hnode, hrest⟩ := List.forall_mem_cons.mp hnodes
    obtain _ | ⟨type, types⟩ := types
    · cases hlength
    simp only [checkArguments, yields_bind, yields_ensure, yields_map] at h
    obtain ⟨argument, hargument, ⟨⟩, -, others, hothers, rfl⟩ := h
    obtain ⟨hlength', hothers⟩ := ih hrest (Nat.succ.inj hlength) hothers
    exact ⟨congrArg Nat.succ hlength', List.forall_mem_cons.mpr ⟨hnode argument hargument, hothers⟩⟩

theorem forall_mem_of_checkValues {chain : StaticChain} {P : Node → Prop} {nodes : List Node}
    (hnodes : ∀ node ∈ nodes, ∀ result, (checkExpression chain node).Yields result → P result) :
    ∀ {type last : Option Ty} {results : List Node},
      (checkValues chain nodes type).Yields (results, last) → ∀ result ∈ results, P result := by
  induction nodes with
  | nil =>
    intro type last results h
    simp only [checkValues, yields_done, Prod.mk.injEq] at h
    obtain ⟨rfl, -⟩ := h
    exact List.forall_mem_nil _
  | cons node rest ih =>
    intro type last results h
    obtain ⟨hnode, hrest⟩ := List.forall_mem_cons.mp hnodes
    simp only [checkValues, yields_bind, yields_ensure, yields_map] at h
    obtain ⟨value, hvalue, ⟨⟩, -, ⟨others, last⟩, hothers, heq⟩ := h
    cases heq
    exact List.forall_mem_cons.mpr ⟨hnode value hvalue, ih hrest hothers⟩

/-- A use of a variable, with an offset that may be absent. -/
theorem resolved_access {chain : StaticChain} {name : String} {offset result : Node}
    {type : Option Ty} {binding : Option Binding}
    (hoffset : ∀ result, (checkExpression chain offset).Yields result → Resolved chain result)
    (h : (checkExpression chain (.access name offset type binding)).Yields result) :
    Resolved chain result := by
  simp only [checkExpression, yields_bind] at h
  obtain ⟨index, hindex, h⟩ := h
  have hinitial : ResolvedInitial chain index := by
    cases hnull : offset.isNull with
    | true =>
      obtain rfl : offset = .null := by
        cases offset <;> first | rfl | cases hnull
      simp only [Node.isNull, if_true, yields_done] at hindex
      subst hindex
      exact .absent
    | false =>
      rw [hnull] at hindex
      exact .present (hoffset index hindex)
  split at h
  · exact absurd h not_yields_refuse
  · simp only [yields_ensure, StaticChain.findVariable_eq_ok_iff] at h
    obtain ⟨found, hfound, h⟩ := h
    split at h
    · exact absurd h not_yields_refuse
    · split at h
      · exact absurd h not_yields_refuse
      · simp only [yields_done] at h
        subst h
        cases hinitial with
        | absent => exact .variable hfound
        | present hoffset => exact .element hoffset hfound

mutual

theorem resolved_expression {chain : StaticChain} (hkeyed : Keyed chain) : ∀ (node result : Node),
    (checkExpression chain node).Yields result → Resolved chain result
  | .literal value _, result, h => by
    simp only [checkExpression, yields_done] at h
    subst h
    exact .literal
  | .group inner _, result, h => by
    rw [checkExpression] at h
    split at h
    · simp only [yields_bind, yields_done] at h
      obtain ⟨inner', hinner, rfl⟩ := h
      exact .group (resolved_expression hkeyed inner inner' hinner)
    · exact absurd h not_yields_refuse
  | .binary symbol left right _, result, h => by
    simp only [checkExpression, yields_bind, yields_ensure, yields_done] at h
    obtain ⟨left', hleft, right', hright, ty, -, rfl⟩ := h
    exact .binary (resolved_expression hkeyed left left' hleft)
      (resolved_expression hkeyed right right' hright)
  | .access name offset _ _, result, h => resolved_access (resolved_expression hkeyed offset) h
  | .call name arguments _ _, result, h => by
    simp only [checkExpression, yields_ensure, yields_bind, yields_noted,
      StaticChain.findFunction_eq_ok_iff] at h
    obtain ⟨f, hf, arguments', harguments, rfl⟩ := h
    -- the function was looked up with the number of arguments
    obtain ⟨hlength, hall⟩ := forall_mem_of_checkArguments (resolved_expressions hkeyed arguments)
      (hkeyed.arity_eq hf).symm harguments
    exact .call (hlength ▸ hf) hall
  | .listLiteral values _, result, h => by
    simp only [checkExpression, yields_map] at h
    obtain ⟨⟨values', type⟩, hvalues, rfl⟩ := h
    exact .listLiteral (forall_mem_of_checkValues (resolved_expressions hkeyed values) hvalues)
  | .null, _, h | .discard .., _, h | .declaration .., _, h | .assignment .., _, h
  | .branch .., _, h | .case .., _, h | .switch .., _, h | .loop .., _, h | .ret .., _, h
  | .global .., _, h | .function .., _, h | .program .., _, h =>
    absurd h not_yields_misshapen

theorem resolved_expressions {chain : StaticChain} (hkeyed : Keyed chain) : ∀ (nodes : List Node),
    ∀ node ∈ nodes, ∀ result, (checkExpression chain node).Yields result → Resolved chain result
  | [] => List.forall_mem_nil _
  | node :: rest => List.forall_mem_cons.mpr
      ⟨resolved_expression hkeyed node, resolved_expressions hkeyed rest⟩

end

theorem resolved_initial {chain : StaticChain} (hkeyed : Keyed chain) {declared type : Option Ty}
    {value result : Node} (h : (checkInitial chain declared value).Yields (result, type)) :
    ResolvedInitial chain result := by
  unfold checkInitial at h
  split at h
  next hnull =>
    obtain rfl : value = .null := by
      cases value <;> first | rfl | cases hnull
    simp only [yields_done, Prod.mk.injEq] at h
    obtain ⟨rfl, -⟩ := h
    exact .absent
  next =>
    simp only [yields_bind] at h
    obtain ⟨checked, hchecked, h⟩ := h
    have hresolved := resolved_expression hkeyed value checked hchecked
    cases declared with
    | none =>
      simp only [yields_done, Prod.mk.injEq] at h
      obtain ⟨rfl, -⟩ := h
      exact .present hresolved
    | some ty =>
      simp only [yields_ensure, yields_done, Prod.mk.injEq] at h
      obtain ⟨⟨⟩, -, rfl, -⟩ := h
      exact .present hresolved

/-! ### Statements -/

mutual

theorem resolved_statement : ∀ (node : Node) {tables after : Tables} {result : Node},
    Keyed tables.chain → (checkStatement tables node).Yields (result, after) →
      ResolvedStatement tables result after
  | .discard expression, tables, after, result, hkeyed, h => by
    simp only [checkStatement, yields_bind] at h
    obtain ⟨expression', hexpression, h⟩ := h
    split at h
    · simp only [yields_done, Prod.mk.injEq] at h
      obtain ⟨rfl, rfl⟩ := h
      exact .discard (resolved_expression hkeyed expression _ hexpression)
    · exact absurd h not_yields_refuse
  | .declaration name typeName value binding, tables, after, result, hkeyed, h => by
    rw [checkStatement] at h
    split at h
    · exact absurd h not_yields_refuse
    · simp only [yields_ensure, yields_bind, yields_done, Prod.exists, Prod.mk.injEq] at h
      obtain ⟨declared, -, value', ty, hvalue, found, after', hdeclare, rfl, rfl⟩ := h
      exact .declaration (resolved_initial hkeyed hvalue) hdeclare
  | .assignment receiver value, tables, after, result, hkeyed, h => by
    rw [checkStatement] at h
    split at h
    · simp only [yields_ensure, yields_bind, yields_done, Prod.mk.injEq] at h
      obtain ⟨value', hvalue, receiver', hreceiver, ⟨⟩, -, rfl, rfl⟩ := h
      exact .assignment (resolved_expression hkeyed value _ hvalue)
        (resolved_expression hkeyed receiver _ hreceiver)
    · exact absurd h not_yields_refuse
  | .branch condition thenBody elseBody, tables, after, result, hkeyed, h => by
    simp only [checkStatement, yields_bind, yields_ensure] at h
    obtain ⟨condition', hcondition, ⟨⟩, -, h⟩ := h
    split at h
    · exact absurd h not_yields_refuse
    · simp only [yields_bind, yields_map, Prod.exists, Prod.mk.injEq] at h
      obtain ⟨thenBody', inThen, hthen, elseBody', inElse, helse, rfl, rfl⟩ := h
      exact .branch (resolved_expression hkeyed condition _ hcondition)
        (resolved_block thenBody hkeyed.enter hthen)
        (resolved_block elseBody hkeyed.resume.enter helse)
  | .switch condition cases, tables, after, result, hkeyed, h => by
    simp only [checkStatement, yields_bind, yields_map, Prod.exists, Prod.mk.injEq] at h
    obtain ⟨condition', hcondition, cases', after', hcases, rfl, rfl⟩ := h
    exact .switch (resolved_expression hkeyed condition _ hcondition)
      (resolved_cases cases hkeyed hcases)
  | .loop condition body, tables, after, result, hkeyed, h => by
    simp only [checkStatement, yields_bind, yields_ensure, yields_map, Prod.exists,
      Prod.mk.injEq] at h
    obtain ⟨condition', hcondition, ⟨⟩, -, body', inside, hbody, rfl, rfl⟩ := h
    exact .loop (resolved_expression hkeyed condition _ hcondition)
      (resolved_block body hkeyed.enter hbody)
  | .ret value, tables, after, result, hkeyed, h => by
    simp only [checkStatement, yields_bind, yields_ensure, yields_done, Prod.mk.injEq] at h
    obtain ⟨value', hvalue, ty, hty, ⟨⟩, haccepts, rfl, rfl⟩ := h
    unfold resultTyAt at hty
    split at hty
    next found hfound =>
      cases hty
      exact .ret (resolved_expression hkeyed value _ hvalue) hfound
        (requireAccepted_eq_ok_iff.mp haccepts)
    next => cases hty
  | .null, _, _, _, _, h | .literal .., _, _, _, _, h | .group .., _, _, _, _, h
  | .binary .., _, _, _, _, h | .access .., _, _, _, _, h | .call .., _, _, _, _, h
  | .listLiteral .., _, _, _, _, h | .case .., _, _, _, _, h | .global .., _, _, _, _, h
  | .function .., _, _, _, _, h | .program .., _, _, _, _, h =>
    absurd h not_yields_misshapen

theorem resolved_block : ∀ (nodes : List Node) {tables after : Tables} {results : List Node},
    Keyed tables.chain → (checkBlock tables nodes).Yields (results, after) →
      ResolvedBlock tables results after
  | [], tables, after, results, _, h => by
    simp only [checkBlock, yields_done, Prod.mk.injEq] at h
    obtain ⟨rfl, rfl⟩ := h
    exact .nil
  | node :: rest, tables, after, results, hkeyed, h => by
    simp only [checkBlock, yields_bind, yields_map, Prod.exists, Prod.mk.injEq] at h
    obtain ⟨node', between, hnode, rest', after', hrest, rfl, rfl⟩ := h
    have hnode := resolved_statement node hkeyed hnode
    exact .cons hnode (resolved_block rest (hnode.keyed hkeyed) hrest)

theorem resolved_cases : ∀ (nodes : List Node) {tables after : Tables} {condition : Option Ty}
    {results : List Node}, Keyed tables.chain →
    (checkCases tables condition nodes).Yields (results, after) →
      ResolvedCases tables results after
  | [], tables, after, condition, results, _, h => by
    simp only [checkCases, yields_done, Prod.mk.injEq] at h
    obtain ⟨rfl, rfl⟩ := h
    exact .nil
  | .case value body :: rest, tables, after, condition, results, hkeyed, h => by
    simp only [checkCases, yields_bind, yields_map, Prod.exists, Prod.mk.injEq] at h
    obtain ⟨value', hvalue, body', inside, hbody, rest', after', hrest, rfl, rfl⟩ := h
    have hrest := resolved_cases rest hkeyed.resume hrest
    refine .cons ?_ (resolved_block body hkeyed.enter hbody) hrest
    -- the default case has no value, and all others have one
    split at hvalue
    next hnull =>
      split at hvalue
      · obtain rfl : value = .null := by
          cases value <;> first | rfl | cases hnull
        simp only [yields_done] at hvalue
        subst hvalue
        exact .absent
      · exact absurd hvalue not_yields_refuse
    next =>
      split at hvalue
      · exact absurd hvalue not_yields_refuse
      · simp only [yields_bind, yields_ensure, yields_done] at hvalue
        obtain ⟨found, hfound, ⟨⟩, -, rfl⟩ := hvalue
        exact .present (resolved_expression hkeyed value found hfound)
  | .null :: _, _, _, _, _, _, h | .literal .. :: _, _, _, _, _, _, h
  | .group .. :: _, _, _, _, _, _, h | .binary .. :: _, _, _, _, _, _, h
  | .access .. :: _, _, _, _, _, _, h | .call .. :: _, _, _, _, _, _, h
  | .listLiteral .. :: _, _, _, _, _, _, h | .discard .. :: _, _, _, _, _, _, h
  | .declaration .. :: _, _, _, _, _, _, h | .assignment .. :: _, _, _, _, _, _, h
  | .branch .. :: _, _, _, _, _, _, h | .switch .. :: _, _, _, _, _, _, h
  | .loop .. :: _, _, _, _, _, _, h | .ret .. :: _, _, _, _, _, _, h
  | .global .. :: _, _, _, _, _, _, h | .function .. :: _, _, _, _, _, _, h
  | .program .. :: _, _, _, _, _, _, h => by
    simp only [checkCases, yields_map] at h
    obtain ⟨found, hfound, -⟩ := h
    exact absurd hfound not_yields_strayCase

end

/-! ### Programs -/

theorem resolved_global {tables after : Tables} {node result : Node} (hkeyed : Keyed tables.chain)
    (h : (checkGlobal tables node).Yields (result, after)) :
    ResolvedGlobal tables result after ∧ Keyed after.chain := by
  cases node with
  | global name mutable typeName value isList binding =>
    simp only [checkGlobal, yields_checkGlobalValue, yields_ensure, yields_noted, Prod.exists,
      Prod.mk.injEq] at h
    obtain ⟨-, declared, -, value', ty, hvalue, found, after', hdeclare, rfl, rfl⟩ := h
    exact ⟨.mk (resolved_initial hkeyed hvalue) hdeclare, hkeyed.declare hdeclare⟩
  | declaration name typeName value binding =>
    simp only [checkGlobal, yields_checkGlobalValue] at h
    obtain ⟨-, declared, -, value', ty, -, h⟩ := h
    exact absurd h not_yields_misshapen
  | _ => exact absurd h not_yields_misshapen

/-- A function that has been declared has got its signature. -/
inductive HasSignature : Node → Prop
  | mk {name parameters types resultType body f} : signatureOf name types resultType = .ok f →
      HasSignature (.function name parameters types resultType body (some f))

theorem hasSignature_of_declareFunction {tables after : Tables} {node result : Node}
    (hkeyed : Keyed tables.chain) (h : (declareFunction tables node).Yields (result, after)) :
    HasSignature result ∧ Keyed after.chain := by
  cases node with
  | function name parameters types resultType body signature =>
    simp only [declareFunction, yields_ensure, yields_noted, Prod.mk.injEq] at h
    obtain ⟨f, hf, after', hdeclare, rfl, rfl⟩ := h
    exact ⟨.mk hf, hkeyed.declareFunction hdeclare⟩
  | _ => exact absurd h not_yields_misshapen

/-- The tables of a body come from those of the result by declarations, one for each parameter. -/
theorem holds_of_bodyTables {P : Tables → Prop} {tables inside : Tables} {f : Signature}
    {parameters : List String}
    (hresult : ∀ binding start,
      tables.enter.declare returnName (some f.result) false false = .ok (binding, start) → P start)
    (hparameter : ∀ before after name ty binding, P before →
      before.declare name (some ty) true false = .ok (binding, after) → P after)
    (h : bodyTables tables f parameters = .ok inside) : P inside := by
  have hfold : ∀ (entries : List (String × Ty)) (before : Tables), P before →
      entries.foldlM (fun inside entry => do
        return (← Tables.declare inside entry.1 (some entry.2) true false).2) before = .ok inside →
      P inside := by
    intro entries
    induction entries with
    | nil =>
      intro before hbefore h
      cases h
      exact hbefore
    | cons entry rest ih =>
      intro before hbefore h
      rw [List.foldlM_cons] at h
      cases hdeclare : before.declare entry.1 (some entry.2) true false with
      | error e =>
        simp only [hdeclare] at h
        cases h
      | ok declared =>
        simp only [hdeclare] at h
        exact ih declared.2 (hparameter _ _ _ _ declared.1 hbefore hdeclare) h
  unfold bodyTables at h
  cases hstart : tables.enter.declare returnName (some f.result) false false with
  | error e =>
    rw [hstart] at h
    cases h
  | ok started =>
    rw [hstart] at h
    exact hfold _ started.2 (hresult started.1 started.2 hstart) h

theorem Tables.Keyed.bodyTables {tables inside : Tables} {f : Signature} {parameters : List String}
    (h : Keyed tables.chain) (hinside : bodyTables tables f parameters = .ok inside) :
    Keyed inside.chain :=
  holds_of_bodyTables (P := fun tables => Keyed tables.chain) (fun _ _ => h.enter.declare)
    (fun _ _ _ _ _ hbefore => hbefore.declare) hinside

theorem resolved_function {tables after : Tables} {node result : Node}
    (hnode : HasSignature node) (hkeyed : Keyed tables.chain)
    (h : (checkFunction tables node).Yields (result, after)) :
    ResolvedFunction tables result after ∧ Keyed after.chain := by
  cases hnode with
  | mk hf =>
    simp only [checkFunction, yields_ensure, yields_map, Prod.exists, Prod.mk.injEq] at h
    obtain ⟨inside, hinside, body', behind, hbody, rfl, rfl⟩ := h
    exact ⟨.mk hf hinside (resolved_block _ (hkeyed.bodyTables hinside) hbody), hkeyed⟩

/-- Nodes of one kind in a row. -/
theorem resolvedEach_of_checkEach {check : Tables → Node → Checked (Node × Tables)}
    (rule : Tables → Node → Tables → Prop) {nodes : List Node}
    (hcheck : ∀ node ∈ nodes, ∀ {tables after result}, Keyed tables.chain →
      (check tables node).Yields (result, after) → rule tables result after ∧ Keyed after.chain) :
    ∀ {tables after : Tables} {results : List Node}, Keyed tables.chain →
      (checkEach check tables nodes).Yields (results, after) →
        ResolvedEach rule tables results after ∧ Keyed after.chain := by
  induction nodes with
  | nil =>
    intro tables after results hkeyed h
    simp only [checkEach, yields_done, Prod.mk.injEq] at h
    obtain ⟨rfl, rfl⟩ := h
    exact ⟨.nil, hkeyed⟩
  | cons node rest ih =>
    intro tables after results hkeyed h
    obtain ⟨hnode, hrest⟩ := List.forall_mem_cons.mp hcheck
    simp only [checkEach, yields_bind, yields_map, Prod.mk.injEq] at h
    obtain ⟨⟨result, between⟩, hresult, ⟨others, behind⟩, hothers, rfl, rfl⟩ := h
    obtain ⟨hresolved, hbetween⟩ := hnode hkeyed hresult
    obtain ⟨hothers, hafter⟩ := ih hrest hbetween hothers
    exact ⟨.cons hresolved hothers, hafter⟩

/-- What a rule says of each node, as long as it keeps the tables as they should be. -/
theorem ResolvedEach.forall_mem {rule : Tables → Node → Tables → Prop} {P : Node → Prop}
    {I : Tables → Prop} {tables after : Tables} {nodes : List Node}
    (h : ResolvedEach rule tables nodes after)
    (hrule : ∀ {tables node after}, I tables → rule tables node after → P node ∧ I after)
    (htables : I tables) : ∀ node ∈ nodes, P node := by
  induction h with
  | nil => exact List.forall_mem_nil _
  | cons hnode _ ih =>
    obtain ⟨hP, hbetween⟩ := hrule htables hnode
    exact List.forall_mem_cons.mpr ⟨hP, ih hbetween⟩

/-- Every accepted program is resolved, wherever its tree comes from. -/
theorem resolved_program {program result : Node} {after : Tables}
    (h : (checkProgram .initial program).Yields (result, after)) : ResolvedProgram result := by
  cases program with
  | program globals functions =>
    simp only [checkProgram, yields_bind, yields_noted, yields_map, Prod.exists, Prod.mk.injEq] at h
    obtain ⟨-, -, globals', behind, hglobals, functions', declared, hdeclared, functions'', after',
      hfunctions, rfl, -⟩ := h
    obtain ⟨hglobals, hbehind⟩ := resolvedEach_of_checkEach ResolvedGlobal
      (fun _ _ _ _ _ => resolved_global) Tables.keyed_initial hglobals
    obtain ⟨hsignatures, hkeyed⟩ := resolvedEach_of_checkEach (fun _ node _ => HasSignature node)
      (fun _ _ _ _ _ => hasSignature_of_declareFunction) hbehind hdeclared
    have hsigned := hsignatures.forall_mem (I := fun _ => True) (fun _ h => ⟨h, trivial⟩) trivial
    obtain ⟨hfunctions, -⟩ := resolvedEach_of_checkEach ResolvedFunction
      (fun node hnode _ _ _ => resolved_function (hsigned node hnode)) hkeyed hfunctions
    exact .mk hglobals hkeyed hfunctions
  | _ => exact absurd h not_yields_misshapen

end BlockScript

import BlockScript.Proofs.Java.Evaluation
import BlockScript.Proofs.Naming.Spelling
import BlockScript.Proofs.Order.Calls
import BlockScript.Proofs.Reordering.Emission
/-!
# Calls in emitted code

The form of an expression has the calls of the expression, in the same order and with the same
arguments. So has that of a statement, except that the index of an element comes before the value
that is assigned to it. What is not emitted, the form does not have.

## Main definitions

* `ReadsCalls` — expressions whose calls are read from their forms
* `EmitsCalls` — statements and their forms

## Main results

* `forall₂_calls` — the calls in the tree that is read from an expression
* `TypedBlock.emitsCalls` — the calls in the forms of statements
-/

namespace BlockScript

open Java (Denotes DenoteAll Term exists_standsFor)
open Node (AllSpelled)
open Tables (Spells)

/-! ### Expressions -/

mutual

/-- A term has the calls of the expression that it stands for. -/
theorem forall₂_calls : ∀ {node : Node} {tree : Term}, Denotes node tree →
    List.Forall₂ Denotes node.calls tree.calls
  | _, _, .literal value _ => by
    rw [Java.Term.calls_ofScalar]
    exact .nil
  | _, _, .group _ h => by
    have hcalls := forall₂_calls h
    exact hcalls
  | _, _, .binary _ _ hleft hright => List.rel_append (forall₂_calls hleft) (forall₂_calls hright)
  | _, _, .power _ hbase hexponent => by
    -- the two operands are arguments in Java, but the power itself is no call of the tree
    have hexponent' := forall₂_calls hexponent
    rw [← List.append_nil (Term.calls _)] at hexponent'
    exact List.rel_append (forall₂_calls hbase) hexponent'
  | _, _, .name .. => .nil
  | _, _, .element _ _ _ h => by
    have hcalls := forall₂_calls h
    exact hcalls
  | _, _, .call name type callee h =>
    List.rel_append (forall₂_callsInAll h) (.cons (.call name type callee h) .nil)

theorem forall₂_callsInAll : ∀ {nodes : List Node} {trees : List Term}, DenoteAll nodes trees →
    List.Forall₂ Denotes (Node.callsInAll nodes) (Java.callsInAll trees)
  | _, _, .nil => .nil
  | _, _, .cons h hrest => List.rel_append (forall₂_calls h) (forall₂_callsInAll hrest)

end

/-- Java reads a tree with the calls of an expression from the form of the expression. -/
def ReadsCalls (node : Node) : Prop :=
  ∀ form, emitExpression node = .ok form →
    ∃ tree, form.StandsFor tree ∧ List.Forall₂ Denotes node.calls tree.calls

theorem Typed.readsCalls {chain : StaticChain} {node : Node} {ty : Ty} (h : Typed chain node ty)
    (hspells : Spells chain) (hnames : node.IsSpelled) : ReadsCalls node := by
  intro form hemit
  obtain ⟨tree, htree, hlexical⟩ := h.exists_denotes hspells hnames
  obtain ⟨form', hemit', hstands⟩ := exists_standsFor htree hlexical
  cases hemit.symm.trans hemit'
  exact ⟨tree, hstands, forall₂_calls htree⟩

/-- An initial value may be absent. -/
theorem TypedInitial.readsCalls {chain : StaticChain} {value : Node} {ty : Ty}
    (h : TypedInitial chain ty value) (hspells : Spells chain) (hnames : value.IsSpelled)
    (hpresent : value.isNull = false) : ReadsCalls value := by
  cases h with
  | absent => cases hpresent
  | present h => exact h.readsCalls hspells hnames

/-! ### Statements -/

/-- The form of a statement has the calls of the statement, as Java reads it and in Java's order,
unless calls are lost. -/
structure EmitsCalls (result : Ty) (statement : Node) (forms : List Java.Statement) : Prop where
  emitted : emitStatement result statement = .ok forms
  exists_trees : ∃ trees,
    List.Forall₂ Java.Expression.StandsFor (forms.flatMap Java.Statement.expressions) trees ∧
    (¬statement.LosesCalls result →
      List.Forall₂ Denotes statement.callsInJava (trees.flatMap Term.calls))

/-- The forms of several statements in a row. -/
def EmitsEach (result : Ty) (statements : List Node) (forms : List Java.Statement) : Prop :=
  ∃ groups, groups.flatten = forms ∧ List.Forall₂ (EmitsCalls result) statements groups

section

variable {result : Ty} {statement : Node} {statements others : List Node}
  {forms more : List Java.Statement}

theorem EmitsEach.nil : EmitsEach result [] [] :=
  ⟨[], rfl, .nil⟩

theorem EmitsCalls.each (h : EmitsCalls result statement forms) :
    EmitsEach result [statement] forms :=
  ⟨[forms], List.append_nil forms, .cons h .nil⟩

theorem EmitsEach.append (h : EmitsEach result statements forms)
    (hmore : EmitsEach result others more) :
    EmitsEach result (statements ++ others) (forms ++ more) := by
  obtain ⟨groups, rfl, hgroups⟩ := h
  obtain ⟨rest, rfl, hrest⟩ := hmore
  exact ⟨groups ++ rest, List.flatten_append, List.rel_append hgroups hrest⟩

/-- A statement with one expression. -/
theorem EmitsCalls.ofTree {form : Java.Expression} {tree : Term}
    (hemit : emitStatement result statement = .ok forms)
    (hforms : forms.flatMap Java.Statement.expressions = [form]) (hstands : form.StandsFor tree)
    (hcalls : List.Forall₂ Denotes statement.callsInJava tree.calls) :
    EmitsCalls result statement forms := by
  refine ⟨hemit, [tree], hforms ▸ .cons hstands .nil, fun _ => ?_⟩
  rw [List.flatMap_singleton]
  exact hcalls

/-- A statement without expressions, which has no calls unless they are lost. -/
theorem EmitsCalls.ofNone (hemit : emitStatement result statement = .ok forms)
    (hforms : forms.flatMap Java.Statement.expressions = [])
    (hcalls : ¬statement.LosesCalls result → statement.callsInJava = []) :
    EmitsCalls result statement forms :=
  ⟨hemit, [], hforms ▸ .nil, fun hkept => hcalls hkept ▸ .nil⟩

namespace ReadsCalls

variable {expression receiver value : Node}

theorem discard (h : ReadsCalls expression)
    (hemit : emitStatement result (.discard expression) = .ok forms) :
    EmitsEach result [.discard expression] (Java.simpleInAll forms) := by
  obtain ⟨form, hform, hforms⟩ := bind_eq_ok_iff.mp hemit
  cases hforms
  obtain ⟨tree, hstands, hcalls⟩ := h form hform
  exact (EmitsCalls.ofTree hemit rfl hstands hcalls).each

/-- There need not be an initial value. -/
theorem declaration {name : String} {typeName : Option String} {binding : Option Binding}
    (h : value.isNull = false → ReadsCalls value)
    (hemit : emitStatement result (.declaration name typeName value binding) = .ok forms) :
    EmitsEach result [.declaration name typeName value binding] (Java.simpleInAll forms) := by
  obtain ⟨found, -, hforms⟩ := bind_eq_ok_iff.mp hemit
  obtain ⟨own, -, hforms⟩ := bind_eq_ok_iff.mp hforms
  obtain ⟨initial, hinitial, hforms⟩ := bind_eq_ok_iff.mp hforms
  cases hforms
  cases hnull : value.isNull with
  | true =>
    cases value with
    | null =>
      cases hinitial
      exact (EmitsCalls.ofNone hemit rfl fun _ => rfl).each
    | _ => cases hnull
  | false =>
    rw [emitInitial, hnull] at hinitial
    obtain ⟨form, hform, hinitial⟩ := bind_eq_ok_iff.mp hinitial
    cases hinitial
    obtain ⟨tree, hstands, hcalls⟩ := h hnull form hform
    exact (EmitsCalls.ofTree hemit rfl hstands hcalls).each

theorem assignment (hreceiver : ReadsCalls receiver) (hvalue : ReadsCalls value)
    (hemit : emitStatement result (.assignment receiver value) = .ok forms) :
    EmitsEach result [.assignment receiver value] (Java.simpleInAll forms) := by
  obtain ⟨target, htarget, hforms⟩ := bind_eq_ok_iff.mp hemit
  obtain ⟨form, hform, hforms⟩ := bind_eq_ok_iff.mp hforms
  cases hforms
  obtain ⟨place, hplace, hfirst⟩ := hreceiver target htarget
  obtain ⟨tree, htree, hlater⟩ := hvalue form hform
  refine EmitsCalls.each ⟨hemit, [place, tree], .cons hplace (.cons htree .nil), fun _ => ?_⟩
  have hcalls := List.rel_append hfirst hlater
  rwa [← List.append_nil tree.calls] at hcalls

/-- Without a result, a value is emitted if it is a call, and calls in other values are lost. -/
theorem ret (h : ReadsCalls value) (hemit : emitStatement result (.ret value) = .ok forms) :
    EmitsEach result [.ret value] (Java.simpleInAll forms) := by
  have hforms := hemit
  rw [emitStatement] at hforms
  by_cases hnil : result = .nil
  · rw [if_pos hnil] at hforms
    by_cases hcall : value.kind? = some .call
    · rw [if_pos hcall] at hforms
      obtain ⟨form, hform, hforms⟩ := bind_eq_ok_iff.mp hforms
      cases hforms
      obtain ⟨tree, hstands, hcalls⟩ := h form hform
      exact (EmitsCalls.ofTree hemit rfl hstands hcalls).each
    · rw [if_neg hcall] at hforms
      cases hforms
      -- nothing of the value is emitted, so its calls are lost if it has any
      refine (EmitsCalls.ofNone hemit rfl fun hkept => ?_).each
      exact not_not.mp fun hcalls => hkept ⟨hnil, hcall, hcalls⟩
  · rw [if_neg hnil] at hforms
    obtain ⟨form, hform, hforms⟩ := bind_eq_ok_iff.mp hforms
    cases hforms
    obtain ⟨tree, hstands, hcalls⟩ := h form hform
    exact (EmitsCalls.ofTree hemit rfl hstands hcalls).each

end ReadsCalls

end

section

variable {result : Ty}

mutual

/-- The forms of the statements in a statement have their calls, one after the other. -/
theorem TypedStatement.emitsEach : ∀ {tables after : Tables} {node : Node}
    {forms : List Java.Statement}, TypedStatement tables node after → Spells tables.chain →
    node.IsSpelled → emitStatement result node = .ok forms →
      EmitsEach result node.simple (Java.simpleInAll forms)
  | _, _, _, _, .discard h, hspells, hnames, hemit => (h.readsCalls hspells hnames).discard hemit
  | _, _, _, _, .declaration _ hvalue _, hspells, hnames, hemit => by
    have hnamesValue := (List.forall_mem_append.mp (List.forall_mem_cons.mp hnames).2).2
    exact ReadsCalls.declaration (hvalue.readsCalls hspells hnamesValue) hemit
  | _, _, _, _, .assignment hvalue hreceiver _ _, hspells, hnames, hemit => by
    obtain ⟨hnamesReceiver, hnamesValue⟩ := List.forall_mem_append.mp hnames
    exact (hreceiver.readsCalls hspells hnamesReceiver).assignment
      (hvalue.readsCalls hspells hnamesValue) hemit
  | _, _, _, _, .branch _ hthen helse, hspells, hnames, hemit => by
    obtain ⟨-, hnames⟩ := List.forall_mem_append.mp hnames
    obtain ⟨hnamesThen, hnamesElse⟩ := List.forall_mem_append.mp hnames
    obtain ⟨test, -, hemit⟩ := bind_eq_ok_iff.mp hemit
    obtain ⟨thenForm, hthenForm, hemit⟩ := bind_eq_ok_iff.mp hemit
    obtain ⟨elseForm, helseForm, hemit⟩ := bind_eq_ok_iff.mp hemit
    cases hemit
    rw [Java.simpleInAll_singleton]
    exact (hthen.emitsEach hspells.enter hnamesThen hthenForm).append
      (helse.emitsEach hspells.enter hnamesElse helseForm)
  | _, _, _, _, .switch _ hcases, hspells, hnames, hemit => by
    obtain ⟨-, hnames⟩ := List.forall_mem_append.mp hnames
    obtain ⟨test, -, hemit⟩ := bind_eq_ok_iff.mp hemit
    obtain ⟨groups, hgroups, hemit⟩ := bind_eq_ok_iff.mp hemit
    cases hemit
    rw [Java.simpleInAll_singleton]
    exact hcases.emitsEach hspells hnames hgroups
  | _, _, _, _, .loop _ hbody, hspells, hnames, hemit => by
    obtain ⟨-, hnames⟩ := List.forall_mem_append.mp hnames
    obtain ⟨test, -, hemit⟩ := bind_eq_ok_iff.mp hemit
    obtain ⟨form, hform, hemit⟩ := bind_eq_ok_iff.mp hemit
    cases hemit
    rw [Java.simpleInAll_singleton]
    exact hbody.emitsEach hspells.enter hnames hform
  | _, _, _, _, .ret hvalue _ _ _, hspells, hnames, hemit =>
    (hvalue.readsCalls hspells hnames).ret hemit

theorem TypedBlock.emitsEach : ∀ {tables after : Tables} {nodes : List Node}
    {forms : List Java.Statement}, TypedBlock tables nodes after → Spells tables.chain →
    AllSpelled nodes → emitBlock result nodes = .ok forms →
      EmitsEach result (Node.simpleInAll nodes) (Java.simpleInAll forms)
  | _, _, _, _, .nil, _, _, hemit => by
    cases hemit
    exact .nil
  | _, _, _, _, .cons h hrest, hspells, hnames, hemit => by
    obtain ⟨hnamesFirst, hnamesRest⟩ := List.forall_mem_append.mp hnames
    obtain ⟨form, hform, hemit⟩ := bind_eq_ok_iff.mp hemit
    obtain ⟨forms, hforms, hemit⟩ := bind_eq_ok_iff.mp hemit
    cases hemit
    rw [Java.simpleInAll_append]
    exact (h.emitsEach hspells hnamesFirst hform).append
      (hrest.emitsEach (h.grows.spells hspells) hnamesRest hforms)

theorem TypedCases.emitsEach : ∀ {tables after : Tables} {nodes : List Node}
    {groups : List (Option Java.Expression × List Java.Statement)},
    TypedCases tables nodes after → Spells tables.chain → AllSpelled nodes →
    emitCases result nodes = .ok groups →
      EmitsEach result (Node.simpleInAll nodes) (Java.simpleInGroups groups)
  | _, _, _, _, .nil, _, _, hemit => by
    cases hemit
    exact .nil
  | _, _, _, _, .default hbody hrest, hspells, hnames, hemit => by
    obtain ⟨hnamesCase, hnamesRest⟩ := List.forall_mem_append.mp hnames
    obtain ⟨form, hform, hemit⟩ := bind_eq_ok_iff.mp hemit
    obtain ⟨groups, hgroups, hemit⟩ := bind_eq_ok_iff.mp hemit
    cases hemit
    exact (hbody.emitsEach hspells.enter hnamesCase hform).append
      (hrest.emitsEach hspells hnamesRest hgroups)
  | _, _, _, _, .valued hvalue hbody hrest, hspells, hnames, hemit => by
    obtain ⟨hnamesCase, hnamesRest⟩ := List.forall_mem_append.mp hnames
    obtain ⟨-, hnamesBody⟩ := List.forall_mem_append.mp hnamesCase
    rw [emitCases, hvalue.isNull_eq] at hemit
    obtain ⟨label, -, hemit⟩ := bind_eq_ok_iff.mp hemit
    obtain ⟨form, hform, hemit⟩ := bind_eq_ok_iff.mp hemit
    obtain ⟨groups, hgroups, hemit⟩ := bind_eq_ok_iff.mp hemit
    cases hemit
    rw [Java.simpleInGroups, Java.simpleInAll_append, Java.simpleInAll_breakOut, List.append_nil]
    exact (hbody.emitsEach hspells.enter hnamesBody hform).append
      (hrest.emitsEach hspells hnamesRest hgroups)

end

end

end BlockScript

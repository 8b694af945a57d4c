import BlockScript.Proofs.Analysis.Distinct
import BlockScript.Proofs.Java.Reading
import BlockScript.Proofs.Java.Scoping
import BlockScript.Proofs.Naming.Apart
/-!
# Names in emitted code

The emission keeps all names. So the uses of variables in the emitted form of a tree are those in
the tree, and its local variables are the declarations in the tree, one by one and in the same
order, wherever the form stands. Only what the names stand for depends on that.

## Main definitions

* `Tables.NamesBindings` — tables in which bindings stand under their own names
* `StaticChain.Binds` — uses of variables that have the right bindings
* `Java.Reading.Mirrors` — what is read wherever an emitted form stands

## Main results

* `Typed.used_eq` — the names in emitted expressions
* `TypedStatement.mirrors`, `TypedBlock.mirrors` — the names in emitted statements
-/

namespace BlockScript

open Java (Reading readAll readGroups usedInAll usedIfPresent)
open Node (usesInAll introducedAll)

/-! ### Expressions -/

/-- Bindings stand under their own names. -/
def Tables.NamesBindings (chain : StaticChain) : Prop :=
  ∀ name binding, chain.findVariable? name = some binding → binding.name = name

open Tables (NamesBindings)

/-- A use of a variable has the binding that its name means. -/
def StaticChain.Binds (chain : StaticChain) (use : String × Option Binding) : Prop :=
  use.1 ≠ returnName ∧ use.2.isSome ∧ chain.findVariable? use.1 = use.2

/-- Parentheses hold the same names. -/
theorem used_of_parenthesize {scope : Java.Scope} {symbol : String} {side : Side} {node : Node}
    {form form' : Java.Expression} (h : parenthesize symbol side node form = .ok form') :
    form'.used scope = form.used scope := by
  rcases Java.eq_or_eq_of_parenthesize h with rfl | rfl <;> rfl

section

variable {chain : StaticChain} {result : Ty} {scope : Java.Scope}

mutual

/-- The names in an emitted expression are those in the expression. -/
theorem Typed.used_eq (hnamed : NamesBindings chain) : ∀ {node : Node} {ty : Ty}
    {form : Java.Expression}, Typed chain node ty → emitExpression node = .ok form →
      form.used scope = (node.uses result).map fun use => scope.find? use.1
  | _, _, _, .literal, hemit => by
    cases hemit
    rfl
  | _, _, _, .group h, hemit => by
    obtain ⟨inner, hinner, hemit⟩ := bind_eq_ok_iff.mp hemit
    cases hemit
    have hused := h.used_eq hnamed hinner
    exact hused
  | _, _, _, @Typed.binary _ symbol _ left right _ _ _ _ hleft hright _, hemit => by
    rw [emitExpression] at hemit
    obtain ⟨l, hl, hemit⟩ := bind_eq_ok_iff.mp hemit
    obtain ⟨l', hl', hemit⟩ := bind_eq_ok_iff.mp hemit
    obtain ⟨r, hr, hemit⟩ := bind_eq_ok_iff.mp hemit
    obtain ⟨r', hr', hemit⟩ := bind_eq_ok_iff.mp hemit
    -- operands may have got parentheses, and a power is written as a call
    have hused : l'.used scope ++ r'.used scope =
        ((Node.binary symbol left right none).uses result).map fun use => scope.find? use.1 := by
      rw [used_of_parenthesize hl', used_of_parenthesize hr', hleft.used_eq hnamed hl,
        hright.used_eq hnamed hr, Node.uses, List.map_append]
    split at hemit <;> cases hemit <;> exact hused
  | _, _, _, .variable _ hfind _ _, hemit => by
    cases hemit
    rw [Java.Expression.used, hnamed _ _ hfind]
    rfl
  | _, _, _, .element _ hoffset hfind _ _, hemit => by
    simp only [emitExpression, hoffset.isNull_eq, Emission.present, ok_bind, Bool.false_eq_true,
      if_false] at hemit
    obtain ⟨index, hindex, hemit⟩ := bind_eq_ok_iff.mp hemit
    cases hemit
    rw [Java.Expression.used, hnamed _ _ hfind, hoffset.used_eq hnamed hindex]
    rfl
  | _, _, _, .call _ harguments, hemit => by
    obtain ⟨forms, hforms, hemit⟩ := bind_eq_ok_iff.mp hemit
    cases hemit
    exact harguments.used_eq hnamed hforms

/-- The names in several emitted expressions are those in the expressions. -/
theorem TypedArguments.used_eq (hnamed : NamesBindings chain) : ∀ {nodes : List Node}
    {types : List Ty} {forms : List Java.Expression}, TypedArguments chain nodes types →
    emitAll nodes = .ok forms →
      usedInAll scope forms = (usesInAll result nodes).map fun use => scope.find? use.1
  | _, _, _, .nil, hemit => by
    cases hemit
    rfl
  | _, _, _, .cons h _ hrest, hemit => by
    obtain ⟨form, hform, hemit⟩ := bind_eq_ok_iff.mp hemit
    obtain ⟨forms, hforms, hemit⟩ := bind_eq_ok_iff.mp hemit
    cases hemit
    rw [usedInAll, h.used_eq hnamed hform, hrest.used_eq hnamed hforms, usesInAll, List.map_append]

end

theorem TypedInitial.used_eq (hnamed : NamesBindings chain) {value : Node} {ty : Ty}
    {form : Option Java.Expression} (h : TypedInitial chain ty value)
    (hemit : emitInitial value = .ok form) :
    usedIfPresent scope form = (value.uses result).map fun use => scope.find? use.1 := by
  cases h with
  | absent =>
    cases hemit
    rfl
  | present h =>
    rw [emitInitial, h.isNull_eq] at hemit
    obtain ⟨form, hform, hemit⟩ := bind_eq_ok_iff.mp hemit
    cases hemit
    exact h.used_eq hnamed hform

mutual

/-- The uses of variables in an expression have the bindings that their names mean there. -/
theorem Typed.uses_bound : ∀ {node : Node} {ty : Ty}, Typed chain node ty →
    ∀ use ∈ node.uses result, chain.Binds use
  | _, _, .literal => fun _ hmem => absurd hmem List.not_mem_nil
  | _, _, .group h => h.uses_bound
  | _, _, .binary _ hleft hright _ =>
    List.forall_mem_append.mpr ⟨hleft.uses_bound, hright.uses_bound⟩
  | _, _, .variable hname hfind _ _ => List.forall_mem_singleton.mpr ⟨hname, rfl, hfind⟩
  | _, _, .element hname hoffset hfind _ _ =>
    List.forall_mem_cons.mpr ⟨⟨hname, rfl, hfind⟩, hoffset.uses_bound⟩
  | _, _, .call _ harguments => harguments.uses_bound

theorem TypedArguments.uses_bound : ∀ {nodes : List Node} {types : List Ty},
    TypedArguments chain nodes types → ∀ use ∈ usesInAll result nodes, chain.Binds use
  | _, _, .nil => fun _ hmem => absurd hmem List.not_mem_nil
  | _, _, .cons h _ hrest => List.forall_mem_append.mpr ⟨h.uses_bound, hrest.uses_bound⟩

end

theorem TypedInitial.uses_bound {value : Node} {ty : Ty} (h : TypedInitial chain ty value) :
    ∀ use ∈ value.uses result, chain.Binds use := by
  cases h with
  | absent => exact fun _ hmem => absurd hmem List.not_mem_nil
  | present h => exact h.uses_bound

end

/-! ### Statements -/

/-- The type and the name that the emitted declaration of a binding has. -/
def Binding.emitted? (binding : Binding) : Option (String × String) :=
  binding.type.map fun ty => (ty.javaName, binding.name)

/-- What is read of an emitted form, wherever it stands: as many uses of names as there are uses
of variables, and local variables for the bindings that are introduced. -/
structure Java.Reading.Mirrors (scope : Java.Scope) (uses : List (String × Option Binding))
    (introduced : List Binding) (reading : Reading) : Prop where
  length_used : reading.used.length = uses.length
  declared : (reading.declared.map fun own => some (own.type, own.name)) =
    introduced.map Binding.emitted?
  count : reading.behind.count = scope.count + introduced.length

open Java.Reading (Mirrors)

namespace Java.Reading.Mirrors

variable {scope : Java.Scope} {reading : Reading} {uses uses' : List (String × Option Binding)}
  {introduced introduced' : List Binding} {next : Java.Scope → Reading}

theorem ofUsed {used : List (Option Java.Declaration)} (h : used.length = uses.length) :
    Mirrors scope uses [] (.ofUsed used scope) :=
  ⟨h, rfl, rfl⟩

theorem followedBy (h : Mirrors scope uses introduced reading)
    (hnext : ∀ scope, Mirrors scope uses' introduced' (next scope)) :
    Mirrors scope (uses ++ uses') (introduced ++ introduced') (reading.followedBy next) := by
  obtain ⟨hused, hdeclared, hcount⟩ := h
  obtain ⟨hused', hdeclared', hcount'⟩ := hnext reading.behind
  refine ⟨?_, ?_, ?_⟩
  · rw [Reading.followedBy, List.length_append, List.length_append, hused, hused']
  · rw [Reading.followedBy, List.map_append, List.map_append, hdeclared, hdeclared']
  · rw [Reading.followedBy, hcount', hcount, List.length_append, Nat.add_assoc]

/-- What begins with an expression, where nothing is declared. -/
theorem behindUsed {used : List (Option Java.Declaration)} (h : used.length = uses.length)
    (hnext : ∀ scope, Mirrors scope uses' introduced (next scope)) :
    Mirrors scope (uses ++ uses') introduced ((Reading.ofUsed used scope).followedBy next) :=
  (ofUsed h).followedBy hnext

theorem inBraces (h : Mirrors scope uses introduced reading) :
    Mirrors scope uses introduced (.inBraces scope reading) :=
  ⟨h.length_used, h.declared, h.count⟩

end Java.Reading.Mirrors

section

variable {chain : StaticChain} {result : Ty} {scope : Java.Scope}

theorem Typed.length_used (hnamed : NamesBindings chain) {node : Node} {ty : Ty}
    {form : Java.Expression} (h : Typed chain node ty) (hemit : emitExpression node = .ok form) :
    (form.used scope).length = (node.uses result).length := by
  rw [h.used_eq hnamed hemit, List.length_map]

theorem TypedInitial.length_used (hnamed : NamesBindings chain) {value : Node} {ty : Ty}
    {form : Option Java.Expression} (h : TypedInitial chain ty value)
    (hemit : emitInitial value = .ok form) :
    (usedIfPresent scope form).length = (value.uses result).length := by
  rw [h.used_eq hnamed hemit, List.length_map]

end

theorem Tables.NamesBindings.enter {tables : Tables} (h : NamesBindings tables.chain) :
    NamesBindings tables.enter.chain :=
  h

theorem Tables.NamesBindings.declare {tables after : Tables} {name : String} {type : Option Ty}
    {mutable isList : Bool} {binding : Binding} (h : NamesBindings tables.chain)
    (hdeclare : tables.declare name type mutable isList = .ok (binding, after)) :
    NamesBindings after.chain := by
  intro other found hfind
  rw [(Tables.findVariable?_of_declare other hdeclare).2] at hfind
  split_ifs at hfind with hother
  · obtain ⟨-, rfl, -⟩ := Tables.declare_eq_ok_iff.mp hdeclare
    cases hfind
    exact hother.symm
  · exact h other found hfind

/-- Bindings stand under their own names behind whatever is declared. -/
theorem Tables.Grows.namesBindings {tables after : Tables} (hgrows : tables.Grows after)
    (h : NamesBindings tables.chain) : NamesBindings after.chain := by
  induction hgrows with
  | refl => exact h
  | skip _ _ ih => exact ih h
  | declare _ hdeclare _ ih => exact ih (h.declare hdeclare)

section

variable {result : Ty}

mutual

/-- The emitted form of a statement has the uses and the declarations of the statement. -/
theorem TypedStatement.mirrors : ∀ {tables after : Tables} {node : Node}
    {forms : List Java.Statement}, TypedStatement tables node after →
    NamesBindings tables.chain → emitStatement result node = .ok forms →
      ∀ scope, Mirrors scope (node.uses result) node.introduced (readAll scope forms)
  | _, _, _, _, .discard h, hnamed, hemit, scope => by
    obtain ⟨form, hform, hemit⟩ := bind_eq_ok_iff.mp hemit
    cases hemit
    rw [Java.readAll_singleton]
    exact .ofUsed (h.length_used hnamed hform)
  | _, _, _, _, .declaration _ hvalue hdeclare, hnamed, hemit, scope => by
    obtain ⟨-, rfl, -⟩ := Tables.declare_eq_ok_iff.mp hdeclare
    simp only [emitStatement, Emission.present, ok_bind] at hemit
    obtain ⟨form, hform, hemit⟩ := bind_eq_ok_iff.mp hemit
    cases hemit
    rw [Java.readAll_singleton]
    exact ⟨hvalue.length_used hnamed hform, rfl, rfl⟩
  | _, _, _, _, .assignment hvalue hreceiver _ _, hnamed, hemit, scope => by
    obtain ⟨target, htarget, hemit⟩ := bind_eq_ok_iff.mp hemit
    obtain ⟨form, hform, hemit⟩ := bind_eq_ok_iff.mp hemit
    cases hemit
    rw [Java.readAll_singleton]
    refine .ofUsed ?_
    rw [Node.uses, List.length_append, List.length_append,
      hreceiver.length_used hnamed htarget, hvalue.length_used hnamed hform]
  | _, _, _, _, @TypedStatement.branch _ condition _ _ _ _ hcondition hthen helse, hnamed, hemit,
      scope => by
    obtain ⟨test, htest, hemit⟩ := bind_eq_ok_iff.mp hemit
    obtain ⟨thenForm, hthenForm, hemit⟩ := bind_eq_ok_iff.mp hemit
    obtain ⟨elseForm, helseForm, hemit⟩ := bind_eq_ok_iff.mp hemit
    cases hemit
    rw [Java.readAll_singleton]
    have htestUsed : (test.used scope).length = (condition.uses result).length :=
      hcondition.length_used hnamed htest
    rw [Node.uses, Node.introduced, Java.Statement.read]
    exact (Mirrors.behindUsed htestUsed fun scope =>
      (hthen.mirrors hnamed.enter hthenForm scope).inBraces).followedBy fun scope =>
      (helse.mirrors hnamed.enter helseForm scope).inBraces
  | _, _, _, _, .switch hcondition hcases, hnamed, hemit, scope => by
    obtain ⟨test, htest, hemit⟩ := bind_eq_ok_iff.mp hemit
    obtain ⟨groups, hgroups, hemit⟩ := bind_eq_ok_iff.mp hemit
    cases hemit
    rw [Java.readAll_singleton]
    exact .behindUsed (hcondition.length_used hnamed htest) fun scope =>
      (hcases.mirrors hnamed hgroups scope).inBraces
  | _, _, _, _, .loop hcondition hbody, hnamed, hemit, scope => by
    obtain ⟨test, htest, hemit⟩ := bind_eq_ok_iff.mp hemit
    obtain ⟨form, hform, hemit⟩ := bind_eq_ok_iff.mp hemit
    cases hemit
    rw [Java.readAll_singleton]
    exact .behindUsed (hcondition.length_used hnamed htest) fun scope =>
      (hbody.mirrors hnamed.enter hform scope).inBraces
  | _, _, _, _, @TypedStatement.ret _ value _ _ _ hvalue _ _ _, hnamed, hemit, scope => by
    rw [emitStatement] at hemit
    rw [Node.uses]
    by_cases hnil : result = .nil
    · rw [if_pos hnil] at hemit
      by_cases hcall : value.kind? = some .call
      · rw [if_pos hcall] at hemit
        obtain ⟨form, hform, hemit⟩ := bind_eq_ok_iff.mp hemit
        cases hemit
        rw [if_neg fun h => h.2 hcall, Java.readAll_expression_exit]
        exact .ofUsed (hvalue.length_used hnamed hform)
      · -- a value that is no call is not emitted
        rw [if_neg hcall] at hemit
        cases hemit
        rw [if_pos ⟨hnil, hcall⟩]
        exact .ofUsed rfl
    · rw [if_neg hnil] at hemit
      obtain ⟨form, hform, hemit⟩ := bind_eq_ok_iff.mp hemit
      cases hemit
      rw [if_neg fun h => hnil h.1, Java.readAll_singleton]
      exact .ofUsed (hvalue.length_used hnamed hform)

theorem TypedBlock.mirrors : ∀ {tables after : Tables} {nodes : List Node}
    {forms : List Java.Statement}, TypedBlock tables nodes after →
    NamesBindings tables.chain → emitBlock result nodes = .ok forms →
      ∀ scope, Mirrors scope (usesInAll result nodes) (introducedAll nodes) (readAll scope forms)
  | _, _, _, _, .nil, _, hemit, scope => by
    cases hemit
    exact .ofUsed rfl
  | _, _, _, _, .cons h hrest, hnamed, hemit, scope => by
    obtain ⟨form, hform, hemit⟩ := bind_eq_ok_iff.mp hemit
    obtain ⟨forms, hforms, hemit⟩ := bind_eq_ok_iff.mp hemit
    cases hemit
    rw [Java.readAll_append]
    have hnamed' := h.grows.namesBindings hnamed
    exact (h.mirrors hnamed hform scope).followedBy fun scope => hrest.mirrors hnamed' hforms scope

theorem TypedCases.mirrors : ∀ {tables after : Tables} {nodes : List Node}
    {groups : List (Option Java.Expression × List Java.Statement)},
    TypedCases tables nodes after → NamesBindings tables.chain →
    emitCases result nodes = .ok groups →
      ∀ scope, Mirrors scope (usesInAll result nodes) (introducedAll nodes)
        (readGroups scope groups)
  | _, _, _, _, .nil, _, hemit, scope => by
    cases hemit
    exact .ofUsed rfl
  | _, _, _, _, .default hbody hrest, hnamed, hemit, scope => by
    obtain ⟨form, hform, hemit⟩ := bind_eq_ok_iff.mp hemit
    obtain ⟨groups, hgroups, hemit⟩ := bind_eq_ok_iff.mp hemit
    cases hemit
    exact (hbody.mirrors hnamed.enter hform scope).followedBy fun scope =>
      hrest.mirrors hnamed hgroups scope
  | _, _, _, _, .valued hvalue hbody hrest, hnamed, hemit, scope => by
    rw [emitCases, hvalue.isNull_eq] at hemit
    obtain ⟨label, hlabel, hemit⟩ := bind_eq_ok_iff.mp hemit
    obtain ⟨form, hform, hemit⟩ := bind_eq_ok_iff.mp hemit
    obtain ⟨groups, hgroups, hemit⟩ := bind_eq_ok_iff.mp hemit
    cases hemit
    refine (Mirrors.behindUsed (hvalue.length_used hnamed hlabel) fun scope => ?_).followedBy
      fun scope => hrest.mirrors hnamed hgroups scope
    rw [Java.readAll_append_breakOut]
    exact hbody.mirrors hnamed.enter hform scope

end

end

end BlockScript

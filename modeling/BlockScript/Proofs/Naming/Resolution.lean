import BlockScript.Proofs.Naming.Emitted
/-!
# What names in emitted code stand for

At corresponding places of a function and of its emitted form, a name stands for the emitted
declaration of what it means, unless an earlier case of a switch has declared it. The two scopes
stay in step as long as names are kept apart; and where they are not, a name stands for something
else, or a local variable is declared a second time.

## Main definitions

* `Origins` — the bindings that emitted declarations are made for
* `Java.Reading.Resolves` — names that stand for the right declarations
* `Corresponds` — scopes in step

## Main results

* `TypedBlock.settles` — names are resolved just if they are kept apart
-/

namespace BlockScript

open Java (Reading readAll readGroups usedInAll usedIfPresent)
open Java.Reading (Mirrors)
open Node (usesInAll introducedAll ownNamesOfAll BlockKeepsApart CasesKeepApart)
open Tables (NamesBindings WellNumbered)

/-- The bindings that the declarations of a class and of one of its methods are made for. -/
structure Origins where
  /-- The bindings of the global variables. -/
  globals : List Binding
  /-- The bindings of the parameters. -/
  parameters : List Binding
  /-- The bindings of the local variables, in the order of their declarations. -/
  locals : List Binding

/-- The binding that a declaration is made for. -/
def Origins.binding? (origins : Origins) : Java.Declaration → Option Binding
  | .field index => origins.globals[index]?
  | .parameter index => origins.parameters[index]?
  | .localVariable index => origins.locals[index]?

/-- The next local variables that are declared are made for the given bindings. -/
def Origins.Expects (origins : Origins) (scope : Java.Scope) (introduced : List Binding) : Prop :=
  introduced <+: origins.locals.drop scope.count

namespace Origins.Expects

variable {origins : Origins} {scope behind : Java.Scope} {introduced introduced' : List Binding}

theorem left (h : origins.Expects scope (introduced ++ introduced')) :
    origins.Expects scope introduced :=
  (List.prefix_append introduced introduced').trans h

theorem right (h : origins.Expects scope (introduced ++ introduced'))
    (hcount : behind.count = scope.count + introduced.length) :
    origins.Expects behind introduced' := by
  obtain ⟨rest, hrest⟩ := h
  refine ⟨rest, ?_⟩
  rw [hcount, ← List.drop_drop, ← hrest, List.append_assoc, List.drop_left]

theorem getElem? {binding : Binding} (h : origins.Expects scope [binding]) :
    origins.locals[scope.count]? = some binding := by
  obtain ⟨rest, hrest⟩ := h
  have hget := congrArg (fun bindings => bindings[0]?) hrest
  simpa using hget.symm

end Origins.Expects

/-! ### Names that are resolved -/

/-- Every name that is used stands for the declaration that was made for the binding of the
variable, and no local variable is declared in the scope of another one of the same name. -/
structure Java.Reading.Resolves (origins : Origins) (uses : List (String × Option Binding))
    (reading : Reading) : Prop where
  used : (reading.used.map fun found => found.bind origins.binding?) = uses.map Prod.snd
  declared : ∀ own ∈ reading.declared, own.clashes = false

open Java.Reading (Resolves)

namespace Java.Reading.Resolves

variable {origins : Origins} {scope : Java.Scope} {uses uses' : List (String × Option Binding)}

theorem ofUsed_iff {used : List (Option Java.Declaration)} :
    Resolves origins uses (.ofUsed used scope) ↔
      (used.map fun found => found.bind origins.binding?) = uses.map Prod.snd :=
  ⟨fun h => h.used, fun h => ⟨h, fun _ hmem => absurd hmem List.not_mem_nil⟩⟩

theorem followedBy_iff {reading : Reading} {next : Java.Scope → Reading}
    (hlength : reading.used.length = uses.length) :
    Resolves origins (uses ++ uses') (reading.followedBy next) ↔
      Resolves origins uses reading ∧ Resolves origins uses' (next reading.behind) := by
  constructor
  · rintro ⟨hused, hdeclared⟩
    rw [Reading.followedBy, List.map_append, List.map_append] at hused
    obtain ⟨hfirst, hnext⟩ := List.append_inj hused
      (by rw [List.length_map, List.length_map, hlength])
    obtain ⟨hfirst', hnext'⟩ := List.forall_mem_append.mp hdeclared
    exact ⟨⟨hfirst, hfirst'⟩, hnext, hnext'⟩
  · rintro ⟨⟨hfirst, hfirst'⟩, hnext, hnext'⟩
    refine ⟨?_, List.forall_mem_append.mpr ⟨hfirst', hnext'⟩⟩
    rw [Reading.followedBy, List.map_append, List.map_append, hfirst, hnext]

theorem inBraces_iff {reading : Reading} :
    Resolves origins uses (.inBraces scope reading) ↔ Resolves origins uses reading :=
  ⟨fun h => ⟨h.used, h.declared⟩, fun h => ⟨h.used, h.declared⟩⟩

end Java.Reading.Resolves

/-! ### Scopes in step -/

/-- At corresponding places, names that are not stale stand for what they mean, and stale ones stand
for something else. The names of parameters and local variables are those that are visible, and the
stale ones. -/
structure Corresponds (origins : Origins) (scope : Java.Scope) (tables : Tables)
    (visible stale : List String) : Prop where
  found : ∀ name, name ≠ returnName → name ∉ stale →
    (scope.find? name).bind origins.binding? = tables.chain.findVariable? name
  lost : ∀ name ∈ stale, (scope.find? name).bind origins.binding? ≠ tables.chain.findVariable? name
  taken : ∀ name, scope.isTaken name = true ↔ name ∈ visible ∨ name ∈ stale
  named : NamesBindings tables.chain
  numbered : WellNumbered tables

namespace Corresponds

variable {origins : Origins} {scope inside : Java.Scope} {tables after : Tables}
  {visible stale : List String} {name : String} {ty : Ty} {binding : Binding}

theorem enter (h : Corresponds origins scope tables visible stale) :
    Corresponds origins scope tables.enter visible stale :=
  ⟨h.found, h.lost, h.taken, h.named, h.numbered.enter⟩

theorem leave (h : Corresponds origins scope tables visible stale)
    (hle : tables.fresh ≤ after.fresh) :
    Corresponds origins (scope.leave inside) (tables.resume after) visible stale :=
  ⟨h.found, h.lost, h.taken, h.named, h.numbered.skip hle⟩

/-- Behind a declaration the name stands for it. -/
theorem declare (h : Corresponds origins scope tables visible stale) (hstale : name ∉ stale)
    (hdeclare : tables.declare name (some ty) true false = .ok (binding, after))
    (hexpects : origins.Expects scope [binding]) :
    Corresponds origins (scope.declare name) after (visible ++ [name]) stale := by
  have hfind : ∀ other, other ≠ name →
      ((scope.declare name).find? other = scope.find? other ∧
        after.chain.findVariable? other = tables.chain.findVariable? other) := by
    intro other hother
    rw [Java.Scope.find?_declare, (Tables.findVariable?_of_declare other hdeclare).2, if_neg hother,
      if_neg hother]
    exact ⟨rfl, rfl⟩
  refine ⟨?_, ?_, ?_, h.named.declare hdeclare, h.numbered.declare hdeclare⟩
  · intro other hreturn hother
    -- the new name means the new binding on both sides, and other names keep their meaning
    by_cases heq : other = name
    · rw [Java.Scope.find?_declare, (Tables.findVariable?_of_declare other hdeclare).2, if_pos heq,
        if_pos heq]
      exact hexpects.getElem?
    · rw [(hfind other heq).1, (hfind other heq).2]
      exact h.found other hreturn hother
  · intro other hother
    have heq : other ≠ name := fun heq => hstale (heq ▸ hother)
    rw [(hfind other heq).1, (hfind other heq).2]
    exact h.lost other hother
  · intro other
    rw [Java.Scope.isTaken_declare, Bool.or_eq_true, decide_eq_true_iff, h.taken, List.mem_append,
      List.mem_singleton]
    tauto

/-- In its own initial value a variable is in scope, but means something else. -/
theorem initial (h : Corresponds origins scope tables visible stale)
    (hdeclare : tables.declare name (some ty) true false = .ok (binding, after))
    (hexpects : origins.Expects scope [binding]) :
    Corresponds origins (scope.declare name) tables visible (name :: stale) := by
  refine ⟨?_, ?_, ?_, h.named, h.numbered⟩
  · intro other hreturn hother
    rw [List.mem_cons, not_or] at hother
    rw [Java.Scope.find?_declare, if_neg hother.1]
    exact h.found other hreturn hother.2
  · intro other hother heq
    rw [Java.Scope.find?_declare] at heq
    split_ifs at heq with hsame
    · -- the new number is greater than all that can be found
      have hfind : tables.chain.findVariable? other = some binding :=
        heq.symm.trans hexpects.getElem?
      have hlt := h.numbered.number_lt hfind
      obtain ⟨-, hbinding, -⟩ := Tables.declare_eq_ok_iff.mp hdeclare
      rw [hbinding] at hlt
      exact Nat.lt_irrefl _ hlt
    · exact h.lost other ((List.mem_cons.mp hother).resolve_left hsame) heq
  · intro other
    rw [Java.Scope.isTaken_declare, Bool.or_eq_true, decide_eq_true_iff, h.taken, List.mem_cons]
    tauto

/-- What a case has declared is still in scope behind it, but has no meaning any more. -/
theorem endCase {body : List Node} {result : Ty}
    (hbefore : Corresponds origins scope tables visible stale)
    (h : Corresponds origins inside after (visible ++ ownNamesOfAll body) stale)
    (hbody : TypedBlock tables.enter body after)
    (hapart : BlockKeepsApart result visible stale body) :
    Corresponds origins inside (tables.resume after) visible (stale ++ ownNamesOfAll body) := by
  refine ⟨?_, ?_, ?_, hbefore.named, hbefore.numbered.skip hbody.grows.fresh_le⟩
  · intro name hreturn hname
    rw [List.mem_append, not_or] at hname
    rw [h.found name hreturn hname.1, hbody.findVariable?_of_notMem hname.2]
    rfl
  · intro name hname heq
    -- a name of the case still finds its binding, whose number is new behind the case
    by_cases hown : name ∈ ownNamesOfAll body
    · obtain ⟨hreturn, binding, hfind, hle⟩ := hbody.exists_fresh_of_mem hown
      have hstale := Node.notMem_of_keepsApart hapart hown
      rw [h.found name hreturn hstale, hfind] at heq
      exact Nat.not_lt_of_le hle (hbefore.numbered.number_lt heq.symm)
    · refine h.lost name ((List.mem_append.mp hname).resolve_right hown) ?_
      rw [heq, hbody.findVariable?_of_notMem hown]
      rfl
  · intro name
    rw [h.taken, List.mem_append, List.mem_append]
    tauto

end Corresponds

/-! ### Expressions -/

/-- What is read of an emitted part resolves names just if the part keeps them apart, and then the
scopes behind it are in step. -/
structure Java.Reading.Settles (origins : Origins) (uses : List (String × Option Binding))
    (apart : Prop) (after : Tables) (visible stale : List String) (reading : Reading) : Prop where
  resolves_iff : Resolves origins uses reading ↔ apart
  behind : apart → Corresponds origins reading.behind after visible stale

open Java.Reading (Settles)

namespace Java.Reading.Settles

variable {origins : Origins} {scope : Java.Scope} {tables between after : Tables}
  {uses uses' : List (String × Option Binding)} {apart apart' : Prop}
  {visible visible' stale stale' : List String} {reading : Reading}

theorem followedBy {next : Java.Scope → Reading}
    (h : Settles origins uses apart between visible stale reading)
    (hlength : reading.used.length = uses.length)
    (hnext : apart → Settles origins uses' apart' after visible' stale' (next reading.behind)) :
    Settles origins (uses ++ uses') (apart ∧ apart') after visible' stale'
      (reading.followedBy next) := by
  refine ⟨(Resolves.followedBy_iff hlength).trans ⟨?_, ?_⟩, ?_⟩
  · rintro ⟨hfirst, hlater⟩
    have hapart := h.resolves_iff.mp hfirst
    exact ⟨hapart, (hnext hapart).resolves_iff.mp hlater⟩
  · rintro ⟨hapart, hapart'⟩
    exact ⟨h.resolves_iff.mpr hapart, (hnext hapart).resolves_iff.mpr hapart'⟩
  · rintro ⟨hapart, hapart'⟩
    exact (hnext hapart).behind hapart'

theorem inBraces (h : Settles origins uses apart after visible' stale' reading)
    (hscope : Corresponds origins scope tables visible stale) (hle : tables.fresh ≤ after.fresh) :
    Settles origins uses apart (tables.resume after) visible stale (.inBraces scope reading) :=
  ⟨Resolves.inBraces_iff.trans h.resolves_iff, fun _ => hscope.leave hle⟩

end Java.Reading.Settles

section

variable {origins : Origins} {scope : Java.Scope} {tables : Tables} {visible stale : List String}
  {result ty : Ty} {node : Node}

/-- Uses of variables are resolved just if none of the names is stale. -/
theorem Corresponds.resolves_iff {uses : List (String × Option Binding)}
    (h : Corresponds origins scope tables visible stale)
    (hbound : ∀ use ∈ uses, tables.chain.Binds use) :
    ((uses.map fun use => scope.find? use.1).map fun found => found.bind origins.binding?) =
        uses.map Prod.snd ↔
      ∀ use ∈ uses, use.1 ∉ stale := by
  rw [List.map_map, List.map_inj_left]
  refine forall₂_congr fun use hmem => ?_
  obtain ⟨hreturn, -, hfind⟩ := hbound use hmem
  rw [← hfind]
  constructor
  · exact fun heq hstale => h.lost use.1 hstale heq
  · exact fun hstale => h.found use.1 hreturn hstale

/-- A part that is nothing but uses of variables. -/
theorem Corresponds.settles {uses : List (String × Option Binding)}
    {used : List (Option Java.Declaration)}
    (h : Corresponds origins scope tables visible stale)
    (hused : used = uses.map fun use => scope.find? use.1)
    (hbound : ∀ use ∈ uses, tables.chain.Binds use) :
    Settles origins uses (∀ use ∈ uses, use.1 ∉ stale) tables visible stale
      (.ofUsed used scope) := by
  rw [hused]
  exact ⟨Resolves.ofUsed_iff.trans (h.resolves_iff hbound), fun _ => h⟩

theorem Typed.settles (h : Typed tables.chain node ty) {form : Java.Expression}
    (hemit : emitExpression node = .ok form)
    (hscope : Corresponds origins scope tables visible stale) :
    Settles origins (node.uses result) (node.Avoids result stale) tables visible stale
      (.ofUsed (form.used scope) scope) :=
  hscope.settles (h.used_eq hscope.named hemit) h.uses_bound

/-- A part that begins with uses of variables. -/
theorem Corresponds.settles_before {after : Tables} {uses uses' : List (String × Option Binding)}
    {used : List (Option Java.Declaration)} {apart : Prop} {visible' stale' : List String}
    {next : Java.Scope → Reading} (h : Corresponds origins scope tables visible stale)
    (hused : used = uses.map fun use => scope.find? use.1)
    (hbound : ∀ use ∈ uses, tables.chain.Binds use)
    (hnext : Settles origins uses' apart after visible' stale' (next scope)) :
    Settles origins (uses ++ uses') ((∀ use ∈ uses, use.1 ∉ stale) ∧ apart) after visible' stale'
      ((Reading.ofUsed used scope).followedBy next) :=
  (h.settles hused hbound).followedBy (by rw [hused]; exact List.length_map _) fun _ => hnext

theorem Typed.settles_before {after : Tables} {uses : List (String × Option Binding)}
    {apart : Prop} {visible' stale' : List String} {next : Java.Scope → Reading}
    (h : Typed tables.chain node ty) {form : Java.Expression}
    (hemit : emitExpression node = .ok form)
    (hscope : Corresponds origins scope tables visible stale)
    (hnext : Settles origins uses apart after visible' stale' (next scope)) :
    Settles origins (node.uses result ++ uses) (node.Avoids result stale ∧ apart) after visible'
      stale' ((Reading.ofUsed (form.used scope) scope).followedBy next) :=
  hscope.settles_before (h.used_eq hscope.named hemit) h.uses_bound hnext

/-- The initial value of a variable is read with the name of the variable in scope. -/
theorem settles_declaration {after : Tables} {name : String} {typeName : Option String}
    {value : Node} {binding : Binding} {forms : List Java.Statement}
    (hvalue : TypedInitial tables.chain ty value)
    (hdeclare : tables.declare name (some ty) true false = .ok (binding, after))
    (hemit : emitStatement result (.declaration name typeName value (some binding)) = .ok forms)
    (hscope : Corresponds origins scope tables visible stale)
    (hexpects : origins.Expects scope [binding]) :
    Settles origins (value.uses result)
      (name ∉ visible ∧ name ∉ stale ∧ value.Avoids result (name :: stale)) after
      (visible ++ [name]) stale (readAll scope forms) := by
  obtain ⟨-, hbinding, -⟩ := Tables.declare_eq_ok_iff.mp hdeclare
  have hname : binding.name = name := by rw [hbinding]
  have htype : binding.type = some ty := by rw [hbinding]
  simp only [emitStatement, Emission.present, htype, hname, ok_bind] at hemit
  obtain ⟨form, hform, hemit⟩ := bind_eq_ok_iff.mp hemit
  cases hemit
  rw [Java.readAll_singleton, Java.Statement.read]
  have hused := (hscope.initial hdeclare hexpects).resolves_iff
    (show ∀ use ∈ value.uses result, _ from hvalue.uses_bound)
  have htaken : scope.isTaken name = false ↔ name ∉ visible ∧ name ∉ stale := by
    rw [← Bool.not_eq_true, hscope.taken, not_or]
  rw [← hvalue.used_eq hscope.named hform] at hused
  refine ⟨⟨?_, ?_⟩, fun hapart => hscope.declare hapart.2.1 hdeclare hexpects⟩
  · rintro ⟨hfound, hdeclared⟩
    obtain ⟨hvisible, hstale⟩ := htaken.mp (hdeclared _ List.mem_cons_self)
    exact ⟨hvisible, hstale, hused.mp hfound⟩
  · rintro ⟨hvisible, hstale, havoids⟩
    exact ⟨hused.mpr havoids, List.forall_mem_singleton.mpr (htaken.mpr ⟨hvisible, hstale⟩)⟩

theorem settles_assignment {receiver value : Node} {own : Ty} {forms : List Java.Statement}
    (hvalue : Typed tables.chain value own) (hreceiver : Typed tables.chain receiver ty)
    (hemit : emitStatement result (.assignment receiver value) = .ok forms)
    (hscope : Corresponds origins scope tables visible stale) :
    Settles origins ((Node.assignment receiver value).uses result)
      ((Node.assignment receiver value).Avoids result stale) tables visible stale
      (readAll scope forms) := by
  obtain ⟨target, htarget, hemit⟩ := bind_eq_ok_iff.mp hemit
  obtain ⟨form, hform, hemit⟩ := bind_eq_ok_iff.mp hemit
  cases hemit
  rw [Java.readAll_singleton]
  refine hscope.settles ?_ (List.forall_mem_append.mpr ⟨hreceiver.uses_bound, hvalue.uses_bound⟩)
  rw [Node.uses, List.map_append, hreceiver.used_eq hscope.named htarget,
    hvalue.used_eq hscope.named hform]

/-- A value that is returned is read if it is emitted. -/
theorem settles_ret {value : Node} {forms : List Java.Statement}
    (hvalue : Typed tables.chain value ty) (hemit : emitStatement result (.ret value) = .ok forms)
    (hscope : Corresponds origins scope tables visible stale) :
    Settles origins ((Node.ret value).uses result) ((Node.ret value).Avoids result stale) tables
      visible stale (readAll scope forms) := by
  unfold Node.Avoids
  rw [emitStatement] at hemit
  rw [Node.uses]
  by_cases hnil : result = .nil
  · rw [if_pos hnil] at hemit
    by_cases hcall : value.kind? = some .call
    · rw [if_pos hcall] at hemit
      obtain ⟨form, hform, hemit⟩ := bind_eq_ok_iff.mp hemit
      cases hemit
      rw [if_neg fun h => h.2 hcall, Java.readAll_expression_exit]
      exact hvalue.settles hform hscope
    · -- the value is left out, and so are its names
      rw [if_neg hcall] at hemit
      cases hemit
      rw [if_pos ⟨hnil, hcall⟩, Java.readAll_singleton]
      exact hscope.settles rfl fun _ hmem => absurd hmem List.not_mem_nil
  · rw [if_neg hnil] at hemit
    obtain ⟨form, hform, hemit⟩ := bind_eq_ok_iff.mp hemit
    cases hemit
    rw [if_neg fun h => hnil h.1, Java.readAll_singleton]
    exact hvalue.settles hform hscope

/-- A group of a switch leaves what it declares in scope. -/
theorem settles_group {inside after : Tables} {value : Node} {body : List Node}
    {label : Option Java.Expression} {form : List Java.Statement}
    {uses' : List (String × Option Binding)} {apart' : Prop} {stale' : List String}
    {next : Java.Scope → Reading} (hscope : Corresponds origins scope tables visible stale)
    (hlabel : usedIfPresent scope label = (value.uses result).map fun use => scope.find? use.1)
    (hbound : ∀ use ∈ value.uses result, tables.chain.Binds use)
    (hbody : TypedBlock tables.enter body inside)
    (hmirrors : Mirrors scope (usesInAll result body) (introducedAll body) (readAll scope form))
    (hinside : Settles origins (usesInAll result body) (BlockKeepsApart result visible stale body)
      inside (visible ++ ownNamesOfAll body) stale (readAll scope form))
    (hnext : Corresponds origins (readAll scope form).behind (tables.resume inside) visible
      (stale ++ ownNamesOfAll body) →
        Settles origins uses' apart' after visible stale' (next (readAll scope form).behind)) :
    Settles origins (value.uses result ++ usesInAll result body ++ uses')
      ((value.Avoids result stale ∧ BlockKeepsApart result visible stale body) ∧ apart') after
      visible stale'
      (((Reading.ofUsed (usedIfPresent scope label) scope).followedBy fun scope =>
        readAll scope form).followedBy next) := by
  have hlength : (usedIfPresent scope label).length = (value.uses result).length := by
    rw [hlabel, List.length_map]
  have hfirst : Settles origins (value.uses result ++ usesInAll result body)
      (value.Avoids result stale ∧ BlockKeepsApart result visible stale body) inside
      (visible ++ ownNamesOfAll body) stale
      ((Reading.ofUsed (usedIfPresent scope label) scope).followedBy fun scope =>
        readAll scope form) :=
    hscope.settles_before hlabel hbound hinside
  refine hfirst.followedBy ?_ fun hapart => ?_
  · exact (List.length_append ..).trans
      ((congrArg₂ (· + ·) hlength hmirrors.length_used).trans (List.length_append ..).symm)
  · exact hnext (hscope.endCase (hinside.behind hapart.2) hbody hapart.2)

end

/-! ### Statements -/

section

variable {origins : Origins} {result : Ty}

mutual

/-- The names of an emitted statement are resolved just if the statement keeps them apart. -/
theorem TypedStatement.settles : ∀ {tables after : Tables} {node : Node}
    {forms : List Java.Statement} {scope : Java.Scope} {visible stale : List String},
    TypedStatement tables node after → emitStatement result node = .ok forms →
    Corresponds origins scope tables visible stale → origins.Expects scope node.introduced →
      Settles origins (node.uses result) (node.KeepsApart result visible stale) after
        (visible ++ node.ownNames) stale (readAll scope forms)
  | _, _, _, _, _, _, _, .discard h, hemit, hscope, _ => by
    obtain ⟨form, hform, hemit⟩ := bind_eq_ok_iff.mp hemit
    cases hemit
    simp only [Java.readAll_singleton, Node.ownNames, List.append_nil]
    exact h.settles hform hscope
  | _, _, _, _, _, _, _, .declaration _ hvalue hdeclare, hemit, hscope, hexpects => by
    have hsettles := settles_declaration hvalue hdeclare hemit hscope hexpects
    exact hsettles
  | _, _, _, _, _, _, _, .assignment hvalue hreceiver _ _, hemit, hscope, _ => by
    simp only [Node.ownNames, List.append_nil]
    exact settles_assignment hvalue hreceiver hemit hscope
  | tables, _, _, _, scope, visible, stale,
      @TypedStatement.branch _ condition thenBody _ inThen _ hcondition hthen helse, hemit, hscope,
      hexpects => by
    obtain ⟨test, htest, hemit⟩ := bind_eq_ok_iff.mp hemit
    obtain ⟨thenForm, hthenForm, hemit⟩ := bind_eq_ok_iff.mp hemit
    obtain ⟨elseForm, helseForm, hemit⟩ := bind_eq_ok_iff.mp hemit
    cases hemit
    have htestUsed : (test.used scope).length = (condition.uses result).length :=
      hcondition.length_used hscope.named htest
    simp only [Java.readAll_singleton, Node.ownNames, List.append_nil]
    rw [Node.uses, Node.KeepsApart, ← and_assoc, Java.Statement.read]
    -- the condition and the first block come before the second block, which needs them settled
    let first := (Reading.ofUsed (test.used scope) scope).followedBy fun scope =>
      Reading.inBraces scope (readAll scope thenForm)
    have hmirrors : Mirrors scope (condition.uses result ++ usesInAll result thenBody)
        (introducedAll thenBody) first :=
      .behindUsed htestUsed fun scope =>
        (hthen.mirrors hscope.enter.named hthenForm scope).inBraces
    have hfirst : Settles origins (condition.uses result ++ usesInAll result thenBody)
        (condition.Avoids result stale ∧ BlockKeepsApart result visible stale thenBody)
        (tables.resume inThen) visible stale first :=
      hcondition.settles_before htest hscope
        ((hthen.settles hthenForm hscope.enter hexpects.left).inBraces hscope
          hthen.grows.fresh_le)
    refine hfirst.followedBy hmirrors.length_used fun hapart => ?_
    have hbehind := hfirst.behind hapart
    have hinElse := (helse.settles helseForm hbehind.enter
      (hexpects.right hmirrors.count)).inBraces hbehind helse.grows.fresh_le
    exact hinElse
  | _, _, _, _, scope, _, _, .switch hcondition hcases, hemit, hscope, hexpects => by
    obtain ⟨test, htest, hemit⟩ := bind_eq_ok_iff.mp hemit
    obtain ⟨groups, hgroups, hemit⟩ := bind_eq_ok_iff.mp hemit
    cases hemit
    simp only [Java.readAll_singleton, Node.ownNames, List.append_nil]
    rw [Node.uses, Node.KeepsApart, Java.Statement.read, hcases.eq_resume]
    exact hcondition.settles_before htest hscope
      ((hcases.settles hgroups hscope hexpects).inBraces hscope hcases.grows.fresh_le)
  | _, _, _, _, scope, _, _, .loop hcondition hbody, hemit, hscope, hexpects => by
    obtain ⟨test, htest, hemit⟩ := bind_eq_ok_iff.mp hemit
    obtain ⟨form, hform, hemit⟩ := bind_eq_ok_iff.mp hemit
    cases hemit
    simp only [Java.readAll_singleton, Node.ownNames, List.append_nil]
    rw [Node.uses, Node.KeepsApart, Java.Statement.read]
    exact hcondition.settles_before htest hscope
      ((hbody.settles hform hscope.enter hexpects).inBraces hscope hbody.grows.fresh_le)
  | _, _, _, _, _, _, _, .ret hvalue _ _ _, hemit, hscope, _ => by
    simp only [Node.ownNames, List.append_nil]
    exact settles_ret hvalue hemit hscope

/-- The names of emitted statements are resolved just if the statements keep them apart. -/
theorem TypedBlock.settles : ∀ {tables after : Tables} {nodes : List Node}
    {forms : List Java.Statement} {scope : Java.Scope} {visible stale : List String},
    TypedBlock tables nodes after → emitBlock result nodes = .ok forms →
    Corresponds origins scope tables visible stale → origins.Expects scope (introducedAll nodes) →
      Settles origins (usesInAll result nodes) (BlockKeepsApart result visible stale nodes) after
        (visible ++ ownNamesOfAll nodes) stale (readAll scope forms)
  | _, _, _, _, _, _, _, .nil, hemit, hscope, _ => by
    cases hemit
    rw [ownNamesOfAll, List.flatMap_nil, List.append_nil]
    exact ⟨iff_of_true ⟨rfl, fun _ hmem => absurd hmem List.not_mem_nil⟩ trivial, fun _ => hscope⟩
  | _, _, _, _, scope, _, _, .cons h hrest, hemit, hscope, hexpects => by
    obtain ⟨form, hform, hemit⟩ := bind_eq_ok_iff.mp hemit
    obtain ⟨forms, hforms, hemit⟩ := bind_eq_ok_iff.mp hemit
    cases hemit
    have hmirrors := h.mirrors hscope.named hform scope
    have hfirst := h.settles hform hscope hexpects.left
    rw [Java.readAll_append, usesInAll, BlockKeepsApart, ownNamesOfAll, List.flatMap_cons,
      ← List.append_assoc]
    refine hfirst.followedBy hmirrors.length_used fun hapart => ?_
    exact hrest.settles hforms (hfirst.behind hapart) (hexpects.right hmirrors.count)

/-- The names of the emitted groups of a switch are resolved just if the cases keep them apart. -/
theorem TypedCases.settles : ∀ {tables after : Tables} {nodes : List Node}
    {groups : List (Option Java.Expression × List Java.Statement)} {scope : Java.Scope}
    {visible stale : List String},
    TypedCases tables nodes after → emitCases result nodes = .ok groups →
    Corresponds origins scope tables visible stale → origins.Expects scope (introducedAll nodes) →
      Settles origins (usesInAll result nodes) (CasesKeepApart result visible stale nodes) after
        visible (stale ++ nodes.flatMap Node.caseNames) (readGroups scope groups)
  | _, _, _, _, _, _, _, .nil, hemit, hscope, _ => by
    cases hemit
    rw [List.flatMap_nil, List.append_nil]
    exact ⟨iff_of_true ⟨rfl, fun _ hmem => absurd hmem List.not_mem_nil⟩ trivial, fun _ => hscope⟩
  | _, _, _, _, scope, _, _, .default hbody hrest, hemit, hscope, hexpects => by
    obtain ⟨form, hform, hemit⟩ := bind_eq_ok_iff.mp hemit
    obtain ⟨groups, hgroups, hemit⟩ := bind_eq_ok_iff.mp hemit
    cases hemit
    have hmirrors := hbody.mirrors hscope.enter.named hform scope
    rw [List.flatMap_cons, ← List.append_assoc]
    have hlabelUsed : usedIfPresent scope none =
        (Node.null.uses result).map fun use => scope.find? use.1 := rfl
    refine settles_group hscope hlabelUsed (fun _ hmem => absurd hmem List.not_mem_nil) hbody
      hmirrors (hbody.settles hform hscope.enter hexpects.left) fun hbehind => ?_
    exact hrest.settles hgroups hbehind (hexpects.right hmirrors.count)
  | _, _, _, _, scope, _, _, @TypedCases.valued _ _ _ value _ _ _ hvalue hbody hrest, hemit, hscope,
      hexpects => by
    rw [emitCases, hvalue.isNull_eq] at hemit
    obtain ⟨label, hlabel, hemit⟩ := bind_eq_ok_iff.mp hemit
    obtain ⟨form, hform, hemit⟩ := bind_eq_ok_iff.mp hemit
    obtain ⟨groups, hgroups, hemit⟩ := bind_eq_ok_iff.mp hemit
    cases hemit
    have hmirrors := hbody.mirrors hscope.enter.named hform scope
    have hlabelUsed : usedIfPresent scope (some label) =
        (value.uses result).map fun use => scope.find? use.1 :=
      hvalue.used_eq hscope.named hlabel
    rw [List.flatMap_cons, ← List.append_assoc]
    -- the break at the end of the group uses and declares nothing
    simp only [readGroups, Java.readAll_append_breakOut]
    refine settles_group hscope hlabelUsed hvalue.uses_bound hbody hmirrors
      (hbody.settles hform hscope.enter hexpects.left) fun hbehind => ?_
    exact hrest.settles hgroups hbehind (hexpects.right hmirrors.count)

end

end

end BlockScript

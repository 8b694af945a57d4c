import BlockScript.Proofs.Compilation
import BlockScript.Proofs.Naming.Resolution
/-!
# What names in emitted programs stand for

Declarations in Java are emitted from bindings, one for each, with their types and names. A name in
the initial value of a field always stands for the field that was made for its binding. In a method,
all names do so, and no local variable is declared in the scope of another one of its name, just if
the function keeps its names apart.

## Main definitions

* `named` — bindings under their names
* `Java.Method.IsNamedLike` — what names in a method stand for

## Main results

* `TypedBody.corresponds` — scopes are in step where a body begins
* `names_resolve_iff_kept_apart` — names in the emitted form of an accepted program
-/

namespace BlockScript

open Java (Reading readAll usedInAll usedIfPresent numbered classScope)
open Java.Reading (Resolves)
open Node (usesInAll introducedAll)
open Tables (NamesBindings WellNumbered)

/-! ### Tables of bindings -/

/-- Bindings under their names. -/
def named (bindings : List Binding) : List (String × Binding) :=
  bindings.map fun binding => (binding.name, binding)

section

variable {origins : Origins} {declaration : Nat → Java.Declaration} {bindings : List Binding}
  {names : List String}

theorem named_append (bindings others : List Binding) :
    named (bindings ++ others) = named bindings ++ named others :=
  List.map_append

theorem isSome_lookup_iff {α : Type} {entries : List (String × α)} {name : String} :
    (entries.lookup name).isSome = true ↔ name ∈ entries.map Prod.fst := by
  rw [List.lookup_isSome_iff, List.mem_map]
  exact exists_congr fun entry => and_congr_right fun _ => beq_iff_eq.trans eq_comm

theorem map_fst_named : (named bindings).map Prod.fst = bindings.map Binding.name :=
  List.map_map

theorem map_fst_numbered : (numbered declaration names).map Prod.fst = names := by
  rw [numbered, List.map_map]
  exact List.zipIdx_map_fst 0 names

/-- The first of two results, if there is one and it has an image, and else the second one. -/
theorem bind_or {α β : Type} {f : α → Option β} {a b : Option α} {a' b' : Option β}
    (ha : a.bind f = a') (hb : b.bind f = b') (hsome : a.isSome = true → a'.isSome = true) :
    (a.or b).bind f = a'.or b' := by
  cases a with
  | none =>
    cases ha
    exact hb
  | some found =>
    obtain ⟨image, rfl⟩ := Option.isSome_iff_exists.mp (hsome rfl)
    exact ha

/-- A name among declarations in a row stands for the first binding of the name. -/
theorem lookup_numbered (h : ∀ index, origins.binding? (declaration index) = bindings[index]?)
    (name : String) :
    ((numbered declaration (bindings.map Binding.name)).lookup name).bind origins.binding? =
      (named bindings).lookup name := by
  have hfrom : ∀ (start : Nat) (rest : List Binding),
      (∀ index, origins.binding? (declaration (start + index)) = rest[index]?) →
        ((((rest.map Binding.name).zipIdx start).map fun entry =>
          (entry.1, declaration entry.2)).lookup name).bind origins.binding? =
            (named rest).lookup name := by
    intro start rest
    induction rest generalizing start with
    | nil => exact fun _ => rfl
    | cons binding rest ih =>
      intro h
      rw [List.map_cons, List.zipIdx_cons, List.map_cons, List.lookup_cons, named, List.map_cons,
        List.lookup_cons]
      by_cases hname : name = binding.name
      · rw [hname, beq_self_eq_true]
        exact h 0
      · rw [beq_false_of_ne hname]
        refine ih (start + 1) fun index => ?_
        rw [Nat.add_assoc, Nat.add_comm 1]
        exact h (index + 1)
  exact hfrom 0 bindings fun index => (Nat.zero_add index).symm ▸ h index

end

/-! ### Fields -/

/-- The tables at the level of a program: those of its global variables, and that of `print`. -/
structure Tables.HoldsGlobals (globals : List Binding) (tables : Tables) : Prop where
  vars : tables.inner.vars = named globals
  outer : tables.outer = [Tables.builtins]
  named : NamesBindings tables.chain
  numbered : WellNumbered tables

open Tables (HoldsGlobals)

namespace Tables.HoldsGlobals

variable {tables after : Tables} {globals : List Binding} {name : String} {ty : Ty}
  {mutable isList : Bool} {binding : Binding}

theorem initial : HoldsGlobals [] .initial where
  vars := rfl
  outer := rfl
  named := by
    intro name binding h
    cases h
  numbered := by
    refine ⟨?_, ?_⟩ <;> simp [numbers, chain, Tables.initial, builtins, builtinFrame]

theorem declare (h : HoldsGlobals globals tables)
    (hdeclare : tables.declare name (some ty) mutable isList = .ok (binding, after)) :
    HoldsGlobals (globals ++ [binding]) after := by
  have hnamed := h.named.declare hdeclare
  have hnumbered := h.numbered.declare hdeclare
  obtain ⟨-, rfl, rfl⟩ := Tables.declare_eq_ok_iff.mp hdeclare
  refine ⟨?_, h.outer, hnamed, hnumbered⟩
  rw [named_append, h.vars]
  rfl

theorem findVariable?_eq (h : HoldsGlobals globals tables) (name : String) :
    tables.chain.findVariable? name = (BlockScript.named globals).lookup name := by
  rw [chain, h.outer, Chain.findVariable?_cons, Frame.findVariable?, h.vars]
  exact Option.or_none

end Tables.HoldsGlobals

theorem TypedValues.used_eq {chain : StaticChain} {ty : Ty} {scope : Java.Scope} {result : Ty}
    (hnamed : NamesBindings chain) : ∀ {values : List Node} {forms : List Java.Expression},
      TypedValues chain ty values → emitAll values = .ok forms →
        usedInAll scope forms = (usesInAll result values).map fun use => scope.find? use.1
  | [], _, _, hemit => by
    cases hemit
    rfl
  | value :: rest, _, h, hemit => by
    obtain ⟨form, hform, hemit⟩ := bind_eq_ok_iff.mp hemit
    obtain ⟨forms, hforms, hemit⟩ := bind_eq_ok_iff.mp hemit
    cases hemit
    obtain ⟨⟨own, hvalue, -⟩, hrest⟩ := List.forall_mem_cons.mp h
    rw [usedInAll, hvalue.used_eq hnamed hform, TypedValues.used_eq hnamed hrest hforms,
      usesInAll, List.map_append]

theorem TypedValues.uses_bound {chain : StaticChain} {ty result : Ty} : ∀ {values : List Node},
    TypedValues chain ty values → ∀ use ∈ usesInAll result values, chain.Binds use
  | [], _ => fun _ hmem => absurd hmem List.not_mem_nil
  | value :: rest, h => by
    obtain ⟨⟨own, hvalue, -⟩, hrest⟩ := List.forall_mem_cons.mp h
    exact List.forall_mem_append.mpr ⟨hvalue.uses_bound, TypedValues.uses_bound hrest⟩

/-- What a field is like that is emitted from a global variable: it has the type and the name of the
binding, and the names in its initial value are those that are used there. -/
theorem TypedGlobal.exists_binding {tables after : Tables} {node : Node} {field : Java.Field}
    (h : TypedGlobal tables node after) (hemit : emitGlobal node = .ok field)
    (hnamed : NamesBindings tables.chain) :
    ∃ binding, node.introduced = [binding] ∧ field.name = binding.name ∧
      some (field.type, field.name) = binding.emitted? ∧
      (∀ globals, HoldsGlobals globals tables → HoldsGlobals (globals ++ [binding]) after) ∧
      (∀ use ∈ node.uses .nil, tables.chain.Binds use) ∧
      ∀ scope, usedIfPresent scope field.value =
        (node.uses .nil).map fun use => scope.find? use.1 := by
  cases h with
  | @list _ _ _ values _ binding _ hvalues hdeclare =>
    have hholds := fun globals (h : HoldsGlobals globals tables) => h.declare hdeclare
    obtain ⟨-, hbinding, -⟩ := Tables.declare_eq_ok_iff.mp hdeclare
    simp only [emitGlobal, hbinding, Emission.present, ok_bind] at hemit
    obtain ⟨value, hvalue, hemit⟩ := bind_eq_ok_iff.mp hemit
    cases hemit
    obtain ⟨braces, hbraces, hvalue⟩ := bind_eq_ok_iff.mp hvalue
    cases hvalue
    obtain ⟨forms, hforms, hbraces⟩ := bind_eq_ok_iff.mp hbraces
    cases hbraces
    refine ⟨binding, rfl, ?_, ?_, hholds, hvalues.uses_bound, ?_⟩
    · rw [hbinding]
    · rw [hbinding]
      rfl
    · exact fun scope => hvalues.used_eq hnamed hforms
  | @value _ _ _ _ _ _ binding _ hvalue hdeclare =>
    have hholds := fun globals (h : HoldsGlobals globals tables) => h.declare hdeclare
    obtain ⟨-, hbinding, -⟩ := Tables.declare_eq_ok_iff.mp hdeclare
    simp only [emitGlobal, hbinding, Emission.present, ok_bind] at hemit
    obtain ⟨form, hform, hemit⟩ := bind_eq_ok_iff.mp hemit
    cases hemit
    refine ⟨binding, rfl, ?_, ?_, hholds, hvalue.uses_bound, ?_⟩
    · rw [hbinding]
    · rw [hbinding]
      rfl
    · exact fun scope => hvalue.used_eq hnamed hform

/-- What is declared so far is found among all fields. -/
theorem Tables.HoldsGlobals.find?_classScope {tables : Tables} {globals all parameters locals}
    {fields : List Java.Field} (h : HoldsGlobals globals tables) (hbegins : globals <+: all)
    (hfields : fields.map Java.Field.name = all.map Binding.name) {use : String × Option Binding}
    (hbinds : tables.chain.Binds use) :
    ((classScope fields).find? use.1).bind (Origins.binding? ⟨all, parameters, locals⟩) =
      use.2 := by
  obtain ⟨rest, rfl⟩ := hbegins
  obtain ⟨-, hsome, hfind⟩ := hbinds
  obtain ⟨binding, hbinding⟩ := Option.isSome_iff_exists.mp hsome
  rw [h.findVariable?_eq, hbinding] at hfind
  rw [Java.Scope.find?, classScope, hfields, List.lookup_nil, Option.none_or,
    lookup_numbered fun _ => rfl, named_append, List.lookup_append, hfind, Option.some_or, hbinding]

/-- Fields have the types and the names of the global variables. -/
theorem TypedGlobals.fields {tables after : Tables} {nodes : List Node} {fields : List Java.Field}
    {before : List Binding} (h : TypedGlobals tables nodes after)
    (hemit : List.Forall₂ (fun node field => emitGlobal node = .ok field) nodes fields)
    (hholds : HoldsGlobals before tables) :
    HoldsGlobals (before ++ introducedAll nodes) after ∧
      fields.map Java.Field.name = (introducedAll nodes).map Binding.name ∧
      (fields.map fun field => some (field.type, field.name)) =
        (introducedAll nodes).map Binding.emitted? := by
  induction h generalizing fields before with
  | nil =>
    cases hemit
    rw [introducedAll, List.append_nil]
    exact ⟨hholds, rfl, rfl⟩
  | cons h _ ih =>
    cases hemit with
    | cons hfield hfields =>
      obtain ⟨binding, hintroduced, hname, hemitted, hholds', -, -⟩ :=
        h.exists_binding hfield hholds.named
      obtain ⟨hbehind, hnames, hall⟩ := ih hfields (hholds' before hholds)
      rw [introducedAll, hintroduced, ← List.append_assoc]
      refine ⟨hbehind, ?_, ?_⟩
      · rw [List.map_cons, hname, hnames]
        rfl
      · rw [List.map_cons, hemitted, hall]
        rfl

/-- Names in the initial values of fields are resolved. -/
theorem TypedGlobals.resolves {tables after : Tables} {nodes : List Node}
    {fields own : List Java.Field} {before all : List Binding} (h : TypedGlobals tables nodes after)
    (hemit : List.Forall₂ (fun node field => emitGlobal node = .ok field) nodes own)
    (hholds : HoldsGlobals before tables) (hbegins : before ++ introducedAll nodes <+: all)
    (hfields : fields.map Java.Field.name = all.map Binding.name) :
    List.Forall₂ (fun node field => Resolves ⟨all, [], []⟩ (node.uses .nil)
      (.ofUsed (usedIfPresent (classScope fields) field.value) (classScope fields))) nodes own := by
  induction h generalizing own before with
  | nil =>
    cases hemit
    exact .nil
  | cons h _ ih =>
    cases hemit with
    | cons hfield hothers =>
      obtain ⟨binding, hintroduced, -, -, hholds', hbound, hused⟩ :=
        h.exists_binding hfield hholds.named
      rw [introducedAll, hintroduced, ← List.append_assoc] at hbegins
      refine .cons (Resolves.ofUsed_iff.mpr ?_) (ih hothers (hholds' before hholds) hbegins)
      rw [hused, List.map_map]
      refine List.map_congr_left fun use hmem => ?_
      have hbefore := ((List.prefix_append before [binding]).trans (List.prefix_append ..)).trans
        hbegins
      exact hholds.find?_classScope hbefore hfields (hbound use hmem)

/-! ### Methods -/

/-- What names in a method stand for: its parameters and its local variables are declared for the
bindings that a function introduces, and its names are resolved just if the function keeps them
apart. -/
structure Java.Method.RendersNames (fields : List Java.Field) (globals : List Binding)
    (function : Node) (bindings : List Binding) (method : Java.Method) : Prop where
  parameters : method.parameters.map some = bindings.map Binding.emitted?
  declared : ((method.reading fields).declared.map fun own => some (own.type, own.name)) =
    function.introduced.map Binding.emitted?
  resolves_iff : ∃ f, function.signature? = some f ∧
    (Resolves ⟨globals, bindings, function.introduced⟩ (function.uses f.result)
        (method.reading fields) ↔
      function.KeepsApart f.result (bindings.map Binding.name) [])

section

variable {tables after : Tables} {names : List String} {types : List Ty}
  {bindings : List Binding}

/-- Behind parameters the innermost table holds their bindings. -/
theorem TypedParameters.vars_eq (h : TypedParameters tables names types bindings after) :
    after.inner.vars = tables.inner.vars ++ named bindings ∧ after.outer = tables.outer := by
  induction h with
  | nil => exact ⟨(List.append_nil _).symm, rfl⟩
  | cons _ hdeclare _ ih =>
    obtain ⟨-, rfl, rfl⟩ := Tables.declare_eq_ok_iff.mp hdeclare
    refine ⟨?_, ih.2⟩
    rw [ih.1, List.append_assoc]
    rfl

theorem TypedParameters.map_name (h : TypedParameters tables names types bindings after) :
    bindings.map Binding.name = names := by
  induction h with
  | nil => rfl
  | cons _ hdeclare _ ih =>
    obtain ⟨-, rfl, -⟩ := Tables.declare_eq_ok_iff.mp hdeclare
    rw [List.map_cons, ih]

/-- Parameters have the types and the names of their bindings. -/
theorem TypedParameters.emitted (h : TypedParameters tables names types bindings after) :
    ((names.zip types).map fun (name, ty) => (ty.javaName, name)).map some =
      bindings.map Binding.emitted? := by
  induction h with
  | nil => rfl
  | cons _ hdeclare _ ih =>
    obtain ⟨-, rfl, -⟩ := Tables.declare_eq_ok_iff.mp hdeclare
    rw [List.zip_cons_cons, List.map_cons, List.map_cons, List.map_cons, ih]
    rfl

end

/-- Where a body begins, the scopes are in step. -/
theorem corresponds_start {tables start inside : Tables} {globals bindings locals : List Binding}
    {names : List String} {types : List Ty} {ty : Ty} {own : Binding} {fields : List Java.Field}
    {method : Java.Method} (hholds : HoldsGlobals globals tables)
    (hfields : fields.map Java.Field.name = globals.map Binding.name)
    (hreturn : tables.enter.declare returnName (some ty) false false = .ok (own, start))
    (hparameters : TypedParameters start names types bindings inside)
    (hmethod : method.parameters.map Prod.snd = names) :
    Corresponds ⟨globals, bindings, locals⟩ (method.scope fields) inside
      (bindings.map Binding.name) [] := by
  have hnamed := hparameters.grows.namesBindings (hholds.named.enter.declare hreturn)
  have hnumbered := hparameters.grows.wellNumbered (hholds.numbered.enter.declare hreturn)
  have hnames := hparameters.map_name
  obtain ⟨hvars, houter⟩ := hparameters.vars_eq
  obtain ⟨-, -, rfl⟩ := Tables.declare_eq_ok_iff.mp hreturn
  refine ⟨?_, fun name hname => absurd hname List.not_mem_nil, ?_, hnamed, hnumbered⟩
  · intro name hname _
    have hinner : inside.inner.findVariable? name = (named bindings).lookup name := by
      rw [Frame.findVariable?, hvars]
      refine List.lookup_cons.trans ?_
      rw [beq_false_of_ne hname]
      rfl
    have hchain : inside.chain.findVariable? name =
        ((named bindings).lookup name).or ((named globals).lookup name) := by
      rw [Tables.chain, Chain.findVariable?_cons, hinner, houter]
      exact congrArg _ (hholds.findVariable?_eq name)
    rw [hchain, Java.Scope.find?, Java.Method.scope, hmethod, ← hnames, classScope, hfields]
    refine bind_or (lookup_numbered (fun _ => rfl) name) (lookup_numbered (fun _ => rfl) name) ?_
    rw [isSome_lookup_iff, isSome_lookup_iff, map_fst_numbered, map_fst_named]
    exact id
  · intro name
    rw [Java.Scope.isTaken, isSome_lookup_iff, Java.Method.scope, map_fst_numbered, hmethod, hnames]
    exact (or_iff_left List.not_mem_nil).symm

/-- A method renders the names of the function that it is emitted from. -/
theorem TypedBody.rendersNames {tables behind : Tables} {f : Signature} {name : String}
    {parameters : List String} {types : List (Option String)} {resultType : Option String}
    {globals bindings : List Binding} {body : List Node} {fields : List Java.Field}
    {method : Java.Method} (h : TypedBody tables f parameters bindings body behind)
    (hemit : emitFunction (.function name parameters types resultType body (some f)) = .ok method)
    (hholds : HoldsGlobals globals tables)
    (hfields : fields.map Java.Field.name = globals.map Binding.name) :
    method.RendersNames fields globals (.function name parameters types resultType body (some f))
      bindings := by
  cases h with
  | mk hreturn hparameters hbody =>
    simp only [emitFunction, Emission.present, ok_bind] at hemit
    obtain ⟨forms, hforms, hemit⟩ := bind_eq_ok_iff.mp hemit
    obtain ⟨rfl⟩ := hemit
    have hemitted := hparameters.emitted
    have hnames : ((parameters.zip f.parameters).map fun (name, ty) =>
        (ty.javaName, name)).map Prod.snd = parameters := by
      rw [List.map_map]
      exact List.map_fst_zip hparameters.length_eq.ge
    generalize ((parameters.zip f.parameters).map fun (name, ty) => (ty.javaName, name)) = typed
      at hemitted hnames
    have hstart : Corresponds ⟨globals, bindings, introducedAll body⟩
        (Java.Method.scope fields ⟨javaResult f.result, f.javaName, typed, forms⟩) _ _ [] :=
      corresponds_start hholds hfields hreturn hparameters hnames
    have hsettles := hbody.settles hforms hstart (List.prefix_refl (introducedAll body))
    exact ⟨hemitted, (hbody.mirrors hstart.named hforms _).declared, f, rfl, hsettles.resolves_iff⟩

theorem TypedFunctions.rendersNames {tables after : Tables} {functions : List Node}
    {bindings : List (List Binding)} {methods : List Java.Method} {globals : List Binding}
    {fields : List Java.Field} (h : TypedFunctions tables functions bindings after)
    (hemit : List.Forall₂ (fun node method => emitFunction node = .ok method) functions methods)
    (hholds : HoldsGlobals globals tables)
    (hfields : fields.map Java.Field.name = globals.map Binding.name) :
    functions.length = bindings.length ∧
      List.Forall₂ (fun entry method =>
        Java.Method.RendersNames fields globals entry.1 entry.2 method)
        (functions.zip bindings) methods := by
  induction h generalizing methods with
  | nil =>
    cases hemit
    exact ⟨rfl, .nil⟩
  | cons _ hbody _ ih =>
    cases hemit with
    | cons hmethod hmethods =>
      -- what a body declares is gone behind it
      obtain ⟨hlength, hall⟩ := ih hmethods
        ⟨hholds.vars, hholds.outer, hholds.named, hholds.numbered.skip hbody.fresh_le⟩
      exact ⟨congrArg (· + 1) hlength, .cons (hbody.rendersNames hmethod hholds hfields) hall⟩

theorem Tables.HoldsGlobals.declareFunctions {tables after : Tables} {globals : List Binding}
    {functions : List Node} (hholds : HoldsGlobals globals tables)
    (h : DeclaredFunctions tables functions after) : HoldsGlobals globals after := by
  refine ⟨?_, ?_, ?_, h.wellNumbered hholds.numbered⟩
  all_goals rw [h.eq]
  · exact hholds.vars
  · exact hholds.outer
  · exact hholds.named

/-! ### Programs -/

section

variable {source : String} {program annotated : Node} {tables : Tables}

/-- The declarations in the emitted form of an accepted program are made for the bindings that the
analysis has introduced, and names in the initial values of fields are resolved. In a method all
names are resolved, and no local variable is declared in the scope of a parameter or another local
variable of its name, just if the function keeps its names apart. -/
theorem names_resolve_iff_kept_apart (hparse : parseProgram source = .ok program)
    (hcheck : (checkProgram .initial program).Yields (annotated, tables)) :
    ∃ globals functions java, annotated = .program globals functions ∧
      emitProgram annotated = .ok java ∧
      ((annotated.introduced ++ (parameterBindings program).flatten).map Binding.number).Nodup ∧
      (java.fields.map fun field => some (field.type, field.name)) =
        (introducedAll globals).map Binding.emitted? ∧
      List.Forall₂ (fun node field => Resolves ⟨introducedAll globals, [], []⟩ (node.uses .nil)
        (.ofUsed (usedIfPresent (classScope java.fields) field.value) (classScope java.fields)))
        globals java.fields ∧
      functions.length = (parameterBindings program).length ∧
      List.Forall₂ (fun entry method =>
        Java.Method.RendersNames java.fields (introducedAll globals) entry.1 entry.2 method)
        (functions.zip (parameterBindings program)) java.methods := by
  obtain ⟨globals, functions, rfl, htyped⟩ := typed_of_accepted hparse hcheck
  obtain ⟨java, -, hjava, -⟩ := emitProgram_of_perm htyped (.refl _)
  have hparts := hjava
  obtain ⟨fields, hfields, hparts⟩ := bind_eq_ok_iff.mp hparts
  obtain ⟨entry, -, hparts⟩ := bind_eq_ok_iff.mp hparts
  obtain ⟨methods, hmethods, hparts⟩ := bind_eq_ok_iff.mp hparts
  cases hparts
  obtain ⟨behind, declared, after, hglobals, hdeclared, hfunctions⟩ := htyped.exists_tables
  have hfields := mapM_eq_ok_iff.mp hfields
  obtain ⟨hbehind, hnames, hemitted⟩ := hglobals.fields hfields .initial
  obtain ⟨hlength, hrenders⟩ := hfunctions.rendersNames (mapM_eq_ok_iff.mp hmethods)
    (hbehind.declareFunctions hdeclared) hnames
  exact ⟨globals, functions, _, rfl, hjava, htyped.numbers_nodup, hemitted,
    hglobals.resolves hfields .initial (List.prefix_refl _) hnames, hlength, hrenders⟩

/-- In the sample program a global variable is passed to a function. -/
theorem names_resolve_iff_kept_apart_sampleTree :
    parseProgram sampleSource = .ok sampleTree ∧
      (checkProgram .initial sampleTree).Yields (checkProgram .initial sampleTree).result ∧
      ∃ globals functions java,
        (checkProgram .initial sampleTree).result.1 = .program globals functions ∧
        emitProgram (.program globals functions) = .ok java ∧
        List.Forall₂ (fun entry method =>
          Java.Method.RendersNames java.fields (introducedAll globals) entry.1 entry.2 method)
          (functions.zip (parameterBindings sampleTree)) java.methods := by
  refine ⟨parseProgram_sampleSource, yields_sampleTree, ?_⟩
  obtain ⟨globals, functions, java, hannotated, hjava, -, -, -, -, hrenders⟩ :=
    names_resolve_iff_kept_apart parseProgram_sampleSource yields_sampleTree.parts
  exact ⟨globals, functions, java, hannotated, hannotated ▸ hjava, hrenders⟩

end

/-! ### Names that are not kept apart -/

/-- A program that has a local variable with the name and the value of a global one, and another
one of the name in an inner block. -/
def shadowingSource : String :=
  "VAR x = 1; FUN main() DO LET x = x; IF TRUE DO LET x = 2; END END"

/-- The tree of the program. -/
def shadowingTree : Node :=
  .program [.global "x" true none (.literal (.integer 1) none) false none]
    [.function "main" [] [] none
      [.declaration "x" none (.access "x" .null none none) none,
        .branch (.literal (.boolean true) none)
          [.declaration "x" none (.literal (.integer 2) none) none] []] none]

/-- In Java the initial value of the first local variable is the variable itself, and the second one
is declared in the scope of the first one. -/
theorem shadowing_is_not_resolved :
    ∃ globals function tables java method,
      parseProgram shadowingSource = .ok shadowingTree ∧
      (checkProgram .initial shadowingTree).Yields (.program globals [function], tables) ∧
      parameterBindings shadowingTree = [[]] ∧
      emitProgram (.program globals [function]) = .ok java ∧ java.methods = [method] ∧
      (((method.reading java.fields).used.map fun found =>
          found.bind (Origins.binding? ⟨introducedAll globals, [], function.introduced⟩)) ≠
        (function.uses .nil).map Prod.snd) ∧
      ∃ own ∈ (method.reading java.fields).declared, own.clashes = true := by
  refine ⟨_, _, _, _, _, by cbv, ⟨by cbv, rfl⟩, by cbv, rfl, rfl, ?_, ?_⟩
  · -- the two bindings have different numbers
    cbv
    decide
  · exact ⟨_, List.mem_cons_of_mem _ List.mem_cons_self, rfl⟩

end BlockScript

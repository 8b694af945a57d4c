import BlockScript.Proofs.Analysis.Annotation
import BlockScript.Proofs.Analysis.Numbering
import Mathlib.Data.List.Perm.Basic
/-!
# The order of functions has no influence on the analysis

All functions of a program are declared before the first body is looked at. So it does not matter
in which order they stand: the program is accepted in one order just if it is in any other, and
whatever the analysis makes of a function, up to the numbers of bindings, it makes of it in every
order. In a program with a fault the order decides how far the analysis gets, and nothing else.

## Main definitions

* `Node.declares?`, `Node.signed` — what a function is declared as
* `Declarable` — functions that can all be declared
* `Node.LeftAs` — what can be left of a function

## Main results

* `lookup_eq_of_perm` — entries with different keys can be found in any order
* `checkProgram_of_perm` — acceptance, and what is left of a program, in two orders
-/

namespace BlockScript

/-! ### Entries in another order -/

section

variable {K V : Type} [BEq K] [LawfulBEq K] {entries entries' : List (K × V)} {key : K} {v : V}

theorem lookup_eq_some_iff_mem (hnodup : (entries.map Prod.fst).Nodup) :
    entries.lookup key = some v ↔ (key, v) ∈ entries := by
  induction entries with
  | nil => simp
  | cons entry rest ih =>
    obtain ⟨own, w⟩ := entry
    obtain ⟨hnew, hrest⟩ := List.nodup_cons.mp hnodup
    rw [List.lookup_cons, List.mem_cons, Prod.mk.injEq]
    by_cases hkey : key = own
    · subst hkey
      have hnot : (key, v) ∉ rest := fun hmem => hnew (List.mem_map.mpr ⟨_, hmem, rfl⟩)
      simp [hnot, eq_comm]
    · have hne : (key == own) = false := beq_eq_false_iff_ne.mpr hkey
      simp [hne, hkey, ih hrest]

/-- Entries with different keys can be found in any order. -/
theorem lookup_eq_of_perm (hperm : entries'.Perm entries)
    (hnodup : (entries.map Prod.fst).Nodup) (key : K) :
    entries'.lookup key = entries.lookup key := by
  have hnodup' : (entries'.map Prod.fst).Nodup := (hperm.map Prod.fst).nodup_iff.mpr hnodup
  apply Option.ext
  intro v
  rw [lookup_eq_some_iff_mem hnodup', lookup_eq_some_iff_mem hnodup, hperm.mem_iff]

end

/-! ### Checks one after another -/

namespace Checked

variable {α β : Type} {x : Checked α} {soFar : α → β} {next : α → Checked β}

theorem bind_of_none (h : x.fault = none) :
    (x.bind soFar next).result = (next x.result).result ∧
      (x.bind soFar next).fault = (next x.result).fault := by
  unfold bind
  rw [h]
  exact ⟨rfl, rfl⟩

theorem bind_of_some {fault : AnalysisFault} (h : x.fault = some fault) :
    x.bind soFar next = x.map soFar := by
  unfold bind
  rw [h]

end Checked

/-! ### Signatures -/

namespace Node

/-- The signature that a function is declared with, if its types are known. -/
def declares? : Node → Option Signature
  | function name _ parameterTypes resultType _ _ =>
    (signatureOf name parameterTypes resultType).toOption
  | _ => none

/-- A function with its signature. -/
def withSignature (signature : Signature) : Node → Node
  | function name parameters parameterTypes resultType body _ =>
    function name parameters parameterTypes resultType body (some signature)
  | other => other

/-- A function with the signature that it is declared with. -/
def signed (node : Node) : Node :=
  match node.declares? with
  | some signature => node.withSignature signature
  | none => node

end Node

/-- A signature with what it is found by. -/
def Signature.entry (f : Signature) : (String × Nat) × Signature :=
  ((f.name, f.arity), f)

/-- The tables with more signatures in the innermost one. -/
def Tables.withSignatures (tables : Tables) (signatures : List Signature) : Tables :=
  { tables with
    inner := { tables.inner with funs := tables.inner.funs ++ signatures.map Signature.entry } }

/-- Functions can all be declared: their types are known, and their names and numbers of parameters
are new, and different from each other. -/
structure Declarable (tables : Tables) (nodes : List Node) : Prop where
  /-- All types are known. -/
  known : ∀ node ∈ nodes, node.declares?.isSome
  /-- No two functions get into each other's way. -/
  nodup : ((nodes.filterMap Node.declares?).map fun f => (f.name, f.arity)).Nodup
  /-- No function is there already. -/
  fresh : ∀ f ∈ nodes.filterMap Node.declares?, tables.inner.findFunction? f.name f.arity = none

theorem Declarable.of_perm {tables : Tables} {nodes nodes' : List Node} (hperm : nodes'.Perm nodes)
    (h : Declarable tables nodes) : Declarable tables nodes' where
  known node hnode := h.known node (hperm.mem_iff.mp hnode)
  nodup := ((hperm.filterMap _).map _).nodup_iff.mpr h.nodup
  fresh f hf := h.fresh f ((hperm.filterMap _).mem_iff.mp hf)

/-- A function is declared just if its types are known and it is not there already. -/
theorem yields_declareFunction {tables : Tables} {node : Node} {result : Node × Tables} :
    (declareFunction tables node).Yields result ↔
      ∃ f, node.declares? = some f ∧ tables.inner.findFunction? f.name f.arity = none ∧
        result = (node.signed, tables.withSignatures [f]) := by
  cases node with
  | function name parameters parameterTypes resultType body signature =>
    simp only [declareFunction, Checked.yields_ensure, Checked.yields_noted, Node.signed,
      Node.declares?, Tables.declareFunction_eq_ok_iff]
    cases signatureOf name parameterTypes resultType with
    | error e => simp [Except.toOption]
    | ok f => simp [Except.toOption, Node.withSignature, Tables.withSignatures, Signature.entry,
        eq_comm]
  | _ => simp [declareFunction, Checked.Yields, Checked.misshapen, Node.declares?]

theorem Tables.findFunction?_withSignatures {tables : Tables} {signatures : List Signature}
    {name : String} {arity : Nat} :
    (tables.withSignatures signatures).inner.findFunction? name arity =
      (tables.inner.findFunction? name arity).or
        ((signatures.map Signature.entry).lookup (name, arity)) :=
  List.lookup_append

/-- The first function is declared, and then the others are. -/
theorem declarable_cons_iff {tables : Tables} {node : Node} {rest : List Node} :
    Declarable tables (node :: rest) ↔
      ∃ f, node.declares? = some f ∧ tables.inner.findFunction? f.name f.arity = none ∧
        Declarable (tables.withSignatures [f]) rest := by
  have hfresh : ∀ f g : Signature,
      (tables.withSignatures [f]).inner.findFunction? g.name g.arity = none ↔
        tables.inner.findFunction? g.name g.arity = none ∧
          (g.name, g.arity) ≠ (f.name, f.arity) := by
    intro f g
    rw [Tables.findFunction?_withSignatures, Option.or_eq_none_iff]
    simp [Signature.entry, List.lookup_eq_none_iff]
  constructor
  · rintro ⟨hknown, hnodup, hnew⟩
    obtain ⟨hnode, hrest⟩ := List.forall_mem_cons.mp hknown
    obtain ⟨f, hf⟩ := Option.isSome_iff_exists.mp hnode
    rw [List.filterMap_cons_some hf] at hnodup hnew
    obtain ⟨hfirst, hothers⟩ := List.forall_mem_cons.mp hnew
    obtain ⟨hother, hnodup⟩ := List.nodup_cons.mp hnodup
    refine ⟨f, hf, hfirst, hrest, hnodup, fun g hg => (hfresh f g).mpr ⟨hothers g hg, ?_⟩⟩
    exact fun heq => hother (List.mem_map.mpr ⟨g, hg, heq⟩)
  · rintro ⟨f, hf, hfirst, hknown, hnodup, hnew⟩
    refine ⟨List.forall_mem_cons.mpr ⟨by rw [hf]; rfl, hknown⟩, ?_, ?_⟩
    · rw [List.filterMap_cons_some hf]
      refine List.nodup_cons.mpr ⟨fun hmem => ?_, hnodup⟩
      obtain ⟨g, hg, heq⟩ := List.mem_map.mp hmem
      exact ((hfresh f g).mp (hnew g hg)).2 heq
    · rw [List.filterMap_cons_some hf]
      exact List.forall_mem_cons.mpr ⟨hfirst, fun g hg => ((hfresh f g).mp (hnew g hg)).1⟩

/-- All functions are declared just if they can be, and each of them gets its signature. -/
theorem yields_declareFunctions {nodes : List Node} : ∀ {tables : Tables}
    {result : List Node × Tables}, (checkEach declareFunction tables nodes).Yields result ↔
      Declarable tables nodes ∧ result =
        (nodes.map Node.signed, tables.withSignatures (nodes.filterMap Node.declares?)) := by
  induction nodes with
  | nil =>
    intro tables result
    have hdeclarable : Declarable tables [] := ⟨by simp, by simp, by simp⟩
    simp [checkEach, hdeclarable, Tables.withSignatures, eq_comm]
  | cons node rest ih =>
    intro tables result
    have hmore : ∀ f signatures, (tables.withSignatures [f]).withSignatures signatures =
        tables.withSignatures (f :: signatures) := by
      intro f signatures
      simp [Tables.withSignatures]
    simp only [checkEach, Checked.yields_bind, Checked.yields_map, yields_declareFunction, ih,
      declarable_cons_iff]
    constructor
    · rintro ⟨_, ⟨f, hf, hnew, rfl⟩, _, ⟨hrest, rfl⟩, rfl⟩
      refine ⟨⟨f, hf, hnew, hrest⟩, ?_⟩
      rw [List.filterMap_cons_some hf, hmore, List.map_cons]
    · rintro ⟨⟨f, hf, hnew, hrest⟩, rfl⟩
      refine ⟨_, ⟨f, hf, hnew, rfl⟩, _, ⟨hrest, rfl⟩, ?_⟩
      rw [List.filterMap_cons_some hf, hmore, List.map_cons]

/-- What a function is left as: as it was, or with its signature. -/
theorem leaves_declareFunctions (tables : Tables) (nodes : List Node) :
    (checkEach declareFunction tables nodes).Leaves fun outcome =>
      List.Forall₂ (fun node result => result = node ∨ result = node.signed) nodes outcome.1 := by
  have hdeclare : ∀ tables node, (declareFunction tables node).Leaves fun outcome =>
      (outcome.1 = node ∨ outcome.1 = node.signed) ∧ True := by
    intro tables node
    cases node with
    | function name parameters parameterTypes resultType body signature =>
      rw [declareFunction]
      cases hf : signatureOf name parameterTypes resultType with
      | error e => exact ⟨.inl rfl, trivial⟩
      | ok f =>
        change (Checked.ensure (tables.declareFunction f) _ _).Leaves _
        refine .ensure ⟨.inl rfl, trivial⟩ fun after => ⟨.inr ?_, trivial⟩
        change Node.function name parameters parameterTypes resultType body (some f) = _
        simp [Node.signed, Node.declares?, hf, Except.toOption, Node.withSignature]
    | _ => exact ⟨.inl rfl, trivial⟩
  exact (leaves_each (I := fun _ => True) (fun _ => .inl rfl)
    (fun tables _ node => hdeclare tables node) nodes tables trivial).1

/-- Signatures in another order mean the same. -/
theorem Tables.Alike.withSignatures {tables : Tables} {signatures signatures' : List Signature}
    (hperm : signatures'.Perm signatures)
    (hnodup : (signatures.map fun f => (f.name, f.arity)).Nodup) :
    (tables.withSignatures signatures').Alike (tables.withSignatures signatures) where
  chain :=
    { vars := fun _ => rfl
      funs := by
        intro name arity
        have hkeys : ((signatures.map Signature.entry).map Prod.fst).Nodup := by
          rwa [List.map_map]
        have hlookup := lookup_eq_of_perm (hperm.map Signature.entry) hkeys (name, arity)
        simp only [Tables.chain, Chain.findFunction?_cons, Tables.findFunction?_withSignatures,
          hlookup]
        rfl }
  taken _ := rfl

/-! ### Bodies -/

section

variable {base : Tables}

/-- All bodies are without fault just if each of them is in tables that are alike, whatever was
checked in front of it. -/
theorem fault_checkFunctions {nodes : List Node} : ∀ {tables : Tables}, tables.Alike base →
    ((checkEach checkFunction tables nodes).fault = none ↔
      ∀ node ∈ nodes, (checkFunction base node).fault = none) := by
  induction nodes with
  | nil => simp [checkEach, Checked.done]
  | cons node rest ih =>
    intro tables htables
    have hnode := alike_function htables node
    have hafter := hnode.result.2.trans (leaves_function base node)
    rw [checkEach, List.forall_mem_cons, ← hnode.fault, ← ih hafter]
    cases hfault : (checkFunction tables node).fault with
    | some fault =>
      rw [Checked.bind_of_some hfault]
      simp [Checked.map, hfault]
    | none =>
      rw [(Checked.bind_of_none hfault).2]
      simp [Checked.map]

/-- What is left of a body: what was there, or what its check makes of it. -/
theorem leaves_checkFunctions {tables : Tables} (h : tables.Alike base) (nodes : List Node) :
    (checkEach checkFunction tables nodes).Leaves fun outcome =>
      List.Forall₂ (fun node result => result = node ∨
        result.Alike (checkFunction base node).result.1) nodes outcome.1 := by
  refine (leaves_each (I := fun tables => tables.Alike base) (fun _ => .inl rfl) ?_ nodes tables
    h).1
  intro tables htables node
  have hnode := alike_function htables node
  exact ⟨.inr hnode.result.1, hnode.result.2.trans (leaves_function base node)⟩

/-- Bodies without fault are what their checks make of them. -/
theorem alike_of_yields_checkFunctions {nodes : List Node} : ∀ {tables after : Tables}
    {results : List Node}, tables.Alike base →
      (checkEach checkFunction tables nodes).Yields (results, after) →
        List.Forall₂ (fun node result => result.Alike (checkFunction base node).result.1) nodes
          results := by
  induction nodes with
  | nil =>
    rintro tables after _ _ ⟨-, ⟨⟩⟩
    exact .nil
  | cons node rest ih =>
    intro tables after results htables hresults
    simp only [checkEach, Checked.yields_bind, Checked.yields_map, Prod.mk.injEq] at hresults
    obtain ⟨⟨node', between⟩, hnode', ⟨rest', behind⟩, hrest', rfl, rfl⟩ := hresults
    have hnode := (alike_function htables node).result
    rw [hnode'.2] at hnode
    exact .cons hnode.1 (ih (hnode.2.trans (leaves_function base node)) hrest')

end

/-! ### Programs -/

/-- What the check of a function makes of it once it has its signature, up to numbers. -/
def Node.annotatedIn (base : Tables) (node : Node) : Node :=
  (checkFunction base node.signed).result.1.unnumbered

theorem Node.erase_signed (node : Node) : node.signed.erase = node.erase := by
  cases node with
  | function =>
    unfold signed
    split <;> rfl
  | _ => rfl

theorem Node.erase_annotatedIn (base : Tables) (node : Node) :
    (node.annotatedIn base).erase = node.erase := by
  rw [annotatedIn, erase_unnumbered, ← erase_signed node]
  exact annotates_function base node.signed

/-- What can be left of a function: the function as it was, the function with its signature, or what
its check makes of it, up to numbers. -/
def Node.LeftAs (annotated : Node → Node) (node result : Node) : Prop :=
  result = node ∨ result = node.signed ∨ result.unnumbered = annotated node

section

variable {tables base : Tables} {globals functions : List Node}

/-- What is left of a program, and whether there is a fault, told by the checks of single
functions. -/
theorem leftAs_checkProgram {checkedGlobals : Checked (List Node × Tables)}
    (hglobals : checkEach checkGlobal tables globals = checkedGlobals)
    (hbase : Declarable checkedGlobals.result.2 functions →
      (checkedGlobals.result.2.withSignatures (functions.filterMap Node.declares?)).Alike base) :
    ((checkProgram tables (.program globals functions)).fault = none ↔
      checkedGlobals.fault = none ∧ Declarable checkedGlobals.result.2 functions ∧
        ∀ node ∈ functions, (checkFunction base node.signed).fault = none) ∧
    ∃ results, (checkProgram tables (.program globals functions)).result.1 =
        .program checkedGlobals.result.1 results ∧
      List.Forall₂ (Node.LeftAs (Node.annotatedIn base)) functions results ∧
      ((checkProgram tables (.program globals functions)).fault = none →
        results.map Node.unnumbered = functions.map (Node.annotatedIn base)) := by
  rw [checkProgram, hglobals, (Checked.bind_of_none rfl).1, (Checked.bind_of_none rfl).2]
  obtain ⟨⟨globals', behind⟩, notes, fault⟩ := checkedGlobals
  cases fault with
  | some fault =>
    rw [Checked.bind_of_some rfl]
    have hstopped := Option.some_ne_none fault
    refine ⟨⟨fun h => absurd h hstopped, fun h => absurd h.1 hstopped⟩, functions, rfl, ?_,
      fun h => absurd h hstopped⟩
    exact List.forall₂_same.mpr fun _ _ => .inl rfl
  | none =>
    rw [(Checked.bind_of_none rfl).1, (Checked.bind_of_none rfl).2]
    dsimp only at hbase ⊢
    cases hfault : (checkEach declareFunction behind functions).fault with
    | some fault =>
      rw [Checked.bind_of_some hfault]
      have hstopped : (checkEach declareFunction behind functions).fault ≠ none := by
        rw [hfault]
        exact Option.some_ne_none fault
      refine ⟨⟨fun h => absurd h hstopped, fun h => ?_⟩, _, rfl, ?_, fun h => absurd h hstopped⟩
      · exact absurd (yields_declareFunctions.mpr ⟨h.2.1, rfl⟩).1 hstopped
      · exact (leaves_declareFunctions behind functions).imp fun _ _ h => h.imp_right .inl
    | none =>
      obtain ⟨hdeclarable, hresult⟩ := yields_declareFunctions.mp ⟨hfault, rfl⟩
      have hsame := hbase hdeclarable
      rw [(Checked.bind_of_none hfault).1, (Checked.bind_of_none hfault).2, hresult]
      refine ⟨?_, _, rfl, ?_, fun h => ?_⟩
      · refine (fault_checkFunctions hsame).trans ?_
        rw [List.forall_mem_map]
        exact ⟨fun h => ⟨rfl, hdeclarable, h⟩, fun h => h.2.2⟩
      · have hleaves := leaves_checkFunctions hsame (functions.map Node.signed)
        exact (List.forall₂_map_left_iff.mp hleaves).imp fun _ _ h => .inr h
      · have halike := alike_of_yields_checkFunctions hsame ⟨h, rfl⟩
        rw [← List.forall₂_eq_eq_eq, List.forall₂_map_left_iff, List.forall₂_map_right_iff]
        exact (List.forall₂_map_left_iff.mp halike).flip

/-- The analysis accepts a program in one order of its functions just if it accepts it in any other.
Whatever it makes of a function, up to the numbers of bindings, it makes of it in every order; if
there is a fault, it may not have got to the function. -/
theorem checkProgram_of_perm {functions' : List Node} (hperm : functions'.Perm functions) :
    let checked := checkProgram tables (.program globals functions)
    let checked' := checkProgram tables (.program globals functions')
    (checked.fault = none ↔ checked'.fault = none) ∧
    ∃ globals' results results' annotated,
      checked.result.1 = .program globals' results ∧
      checked'.result.1 = .program globals' results' ∧
      List.Forall₂ (Node.LeftAs annotated) functions results ∧
      List.Forall₂ (Node.LeftAs annotated) functions' results' ∧
      (∀ node, (annotated node).erase = node.erase) ∧
      (checked.fault = none → results.map Node.unnumbered = functions.map annotated ∧
        results'.map Node.unnumbered = functions'.map annotated) := by
  intro checked checked'
  have hglobals := Eq.refl (checkEach checkGlobal tables globals)
  set behind := (checkEach checkGlobal tables globals).result.2
  set base := behind.withSignatures (functions.filterMap Node.declares?)
  obtain ⟨hfault, results, hresult, hleft, hall⟩ :=
    @leftAs_checkProgram tables base globals functions _ hglobals fun _ => .refl base
  obtain ⟨hfault', results', hresult', hleft', hall'⟩ :=
    @leftAs_checkProgram tables base globals functions' _ hglobals fun h =>
      .withSignatures (hperm.filterMap _) (h.of_perm hperm.symm).nodup
  have hiff : checked.fault = none ↔ checked'.fault = none := by
    refine hfault.trans (Iff.trans ?_ hfault'.symm)
    refine and_congr_right fun _ => and_congr ⟨.of_perm hperm, .of_perm hperm.symm⟩ ?_
    exact forall_congr' fun node => imp_congr hperm.mem_iff.symm Iff.rfl
  exact ⟨hiff, _, results, results', Node.annotatedIn base, hresult, hresult', hleft, hleft',
    Node.erase_annotatedIn base, fun h => ⟨hall h, hall' (hiff.mp h)⟩⟩

end

end BlockScript

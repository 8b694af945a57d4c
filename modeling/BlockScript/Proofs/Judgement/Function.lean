import BlockScript.Proofs.Judgement.Global
import Mathlib.Data.List.Nodup
/-!
# The analysis decides which functions are well typed

All functions get their signatures before any body is looked at. The signatures come down to the
headers that the rules give to the functions, which must be different from each other; each body is
then checked in an environment that has all of them.

## Main definitions

* `Judgement.Records` — what the analysis records of a function, against its header
* `Judgement.Signed`, `Judgement.SignedAll` — functions, their headers, and the functions with their
  signatures

## Main results

* `Judgement.decides_headers` — the headers of all functions
* `Judgement.decides_functions` — the bodies of all functions
-/

namespace BlockScript

namespace Judgement

open Checked (Decides)
open BlockScript.Parser (AllLexed)

/-! ### Headers -/

section

variable {Γ : Environment} {tables : Tables}

theorem namedTy_iff {otherwise ty : Ty} {typeName : Option String} :
    NamedTy otherwise typeName ty ↔
      (do return (← resolveTy typeName).getD otherwise : Except AnalysisError Ty) = .ok ty := by
  constructor
  · rintro (_ | hname)
    · rfl
    · rw [resolveTy_some_eq_ok_iff.mpr ⟨ty, hname, rfl⟩]
      rfl
  · intro h
    obtain _ | text := typeName
    · cases h
      exact .absent
    · cases hresolve : resolveTy (some text) with
      | error e =>
        rw [hresolve] at h
        cases h
      | ok declared =>
        obtain ⟨ty', hname, rfl⟩ := resolveTy_some_eq_ok_iff.mp hresolve
        rw [hresolve] at h
        cases h
        exact .present hname

/-- The signature of a function has the types that the rules give to its parameters and result. -/
theorem signatureOf_eq_ok_iff {name : String} {typeNames : List (Option String)}
    {resultName : Option String} {signature : Signature} :
    signatureOf name typeNames resultName = .ok signature ↔
      ∃ types result, List.Forall₂ (NamedTy .any) typeNames types ∧
        NamedTy .nil resultName result ∧
        signature = { name, javaName := name, parameters := types, result } := by
  have hparameters : ∀ types, (typeNames.mapM fun typeName => do
      return (← resolveTy typeName).getD Ty.any) = .ok types ↔
        List.Forall₂ (NamedTy .any) typeNames types := by
    intro types
    rw [mapM_eq_ok_iff]
    exact ⟨fun h => h.imp fun _ _ => namedTy_iff.mpr, fun h => h.imp fun _ _ => namedTy_iff.mp⟩
  constructor
  · intro h
    unfold signatureOf at h
    cases htypes : typeNames.mapM fun typeName => do
        return (← resolveTy typeName).getD Ty.any with
    | error e =>
      rw [htypes] at h
      cases h
    | ok types =>
      rw [htypes] at h
      cases hresult : resolveTy resultName with
      | error e =>
        rw [hresult] at h
        cases h
      | ok result =>
        rw [hresult] at h
        cases h
        exact ⟨types, _, (hparameters types).mp htypes,
          namedTy_iff.mpr (by rw [hresult]; rfl), rfl⟩
  · rintro ⟨types, result, htypes, hresult, rfl⟩
    rw [signatureOf, (hparameters types).mpr htypes]
    have hresult := namedTy_iff.mp hresult
    cases hresolve : resolveTy resultName with
    | error e =>
      rw [hresolve] at hresult
      cases hresult
    | ok declared =>
      rw [hresolve] at hresult
      cases hresult
      rfl

/-- What the analysis records of a function, against what the rules say about it. -/
def Records (header : (String × Nat) × FunctionTy) (entry : (String × Nat) × Signature) : Prop :=
  entry.1 = header.1 ∧ header.2.Shows entry.2 ∧ entry.1 = (entry.2.name, entry.2.arity)

/-- A function, its header, and the function with its signature. Its parameters are names of the
source, and the check of its body decides whether the body is well typed. -/
inductive Signed : Node → (String × Nat) × FunctionTy → Node → Prop
  | mk {name parameters typeNames resultName body signature header} :
      (∀ parameter ∈ parameters, parameter ≠ returnName) → DecidesBlock body →
      header.2.parameters.length = parameters.length →
      Header (.function name parameters typeNames resultName body none) header →
      header.2.Shows signature →
      Signed (.function name parameters typeNames resultName body none) header
        (.function name parameters typeNames resultName body (some signature))

theorem Signed.header {node signed : Node} {header : (String × Nat) × FunctionTy}
    (h : Signed node header signed) : Header node header := by
  obtain ⟨-, -, -, hheader, -⟩ := h
  exact hheader

/-- Functions, their headers, and the functions with their signatures. -/
inductive SignedAll : List Node → List ((String × Nat) × FunctionTy) → List Node → Prop
  | nil : SignedAll [] [] []
  | cons {node header signed nodes headers others} : Signed node header signed →
      SignedAll nodes headers others →
      SignedAll (node :: nodes) (header :: headers) (signed :: others)

theorem SignedAll.headers {nodes signed : List Node} {headers : List ((String × Nat) × FunctionTy)}
    (h : SignedAll nodes headers signed) : List.Forall₂ Header nodes headers := by
  induction h with
  | nil => exact .nil
  | cons h _ ih => exact .cons h.header ih

/-- The tables with other functions in the innermost one. -/
def withFuns (tables : Tables) (entries : List ((String × Nat) × Signature)) : Tables :=
  { tables with inner := { tables.inner with funs := entries } }

theorem declareFunction_withFuns_eq_ok_iff {entries : List ((String × Nat) × Signature)}
    {signature : Signature} {after : Tables} :
    (withFuns tables entries).declareFunction signature = .ok after ↔
      (signature.name, signature.arity) ∉ entries.map Prod.fst ∧
        after = withFuns tables (entries ++ [((signature.name, signature.arity), signature)]) := by
  rw [Tables.declareFunction_eq_ok_iff]
  have hnone : entries.lookup (signature.name, signature.arity) = none ↔
      (signature.name, signature.arity) ∉ entries.map Prod.fst := by
    simp only [List.lookup_eq_none_iff, List.mem_map, not_exists, not_and, bne_iff_ne]
    exact forall₂_congr fun _ _ => ne_comm
  exact and_congr hnone Iff.rfl

theorem Records.map_fst_eq {headers : List ((String × Nat) × FunctionTy)}
    {entries : List ((String × Nat) × Signature)} (h : List.Forall₂ Records headers entries) :
    entries.map Prod.fst = headers.map Prod.fst := by
  induction h with
  | nil => rfl
  | cons h _ ih => rw [List.map_cons, List.map_cons, h.1, ih]

/-- A function of the grammar. -/
def IsFunction (node : Node) : Prop :=
  ∃ name parameters typeNames resultName body,
    node = .function name parameters typeNames resultName body none ∧
      (∀ parameter ∈ parameters, parameter ≠ returnName) ∧
        typeNames.length = parameters.length ∧ DecidesBlock body

theorem isFunction_of_function {used : List Token} {node : Node}
    (h : Grammar.Function used node) (hused : AllLexed used) : IsFunction node := by
  cases h with
  | mk _ _ _ hparams _ _ _ hbody _ =>
    have hrest := hused.tail.tail.tail
    refine ⟨_, _, _, _, _, rfl, ?_, by simp,
      decides_block hbody hrest.right.tail.right.tail.left⟩
    -- a function without parameters, and one with some
    rcases hparams with ⟨rfl, rfl⟩ | hparams
    · simp
    · exact parameters_ne_returnName hparams hrest.left

theorem isFunction_of_many {used : List Token} {nodes : List Node}
    (h : Grammar.Many Grammar.Function used nodes) (hused : AllLexed used) :
    ∀ node ∈ nodes, IsFunction node := by
  induction h with
  | nil => simp
  | cons h _ ih =>
    exact List.forall_mem_cons.mpr ⟨isFunction_of_function h hused.left, ih hused.right⟩

/-- The check of the header of a function decides whether it has one that is new. -/
theorem decides_header {node : Node} (hnode : IsFunction node)
    {before : List ((String × Nat) × FunctionTy)} {entries : List ((String × Nat) × Signature)}
    (hentries : List.Forall₂ Records before entries) :
    Decides (declareFunction (withFuns tables entries) node)
      (∃ header, Header node header ∧ header.1 ∉ before.map Prod.fst)
      fun outcome => ∃ header entry, Signed node header outcome.1 ∧ header.1 ∉ before.map Prod.fst ∧
        Records header entry ∧ outcome.2 = withFuns tables (entries ++ [entry]) := by
  obtain ⟨name, parameters, typeNames, resultName, body, rfl, hparameters, hlength, hbody⟩ := hnode
  have hheader : ∀ {header},
      Header (.function name parameters typeNames resultName body none) header →
        ∃ signature, signatureOf name typeNames resultName = .ok signature := by
    rintro _ ⟨htypes, hresult⟩
    exact ⟨_, signatureOf_eq_ok_iff.mpr ⟨_, _, htypes, hresult, rfl⟩⟩
  rw [declareFunction]
  refine .ensure (fun signature hsignature => ?_) ?_
  · obtain ⟨types, result, htypes, hresult, rfl⟩ := signatureOf_eq_ok_iff.mp hsignature
    have harity : types.length = parameters.length := htypes.length_eq.symm.trans hlength
    have hown : Header (.function name parameters typeNames resultName body none)
        ((name, parameters.length), ⟨types, result⟩) := .mk htypes hresult
    refine .ensure (fun after hafter => ?_) ?_
    · obtain ⟨hnew, rfl⟩ := declareFunction_withFuns_eq_ok_iff.mp hafter
      rw [Records.map_fst_eq hentries] at hnew
      simp only [Signature.arity, harity] at hnew
      refine .noted ⟨_, _, .mk hparameters hbody harity hown ⟨rfl, rfl⟩, hnew, ?_, rfl⟩
      exact ⟨by simp [Signature.arity, harity], ⟨rfl, rfl⟩, rfl⟩
    · rintro ⟨header, h, hnew⟩
      rw [h.unique hown, ← Records.map_fst_eq hentries] at hnew
      refine ⟨_, declareFunction_withFuns_eq_ok_iff.mpr ⟨?_, rfl⟩⟩
      simpa only [Signature.arity, harity] using hnew
  · rintro ⟨header, h, -⟩
    exact hheader h

/-- The headers of several functions must be new, and different from each other. -/
theorem decides_headers {nodes : List Node} (hnodes : ∀ node ∈ nodes, IsFunction node) :
    ∀ {before : List ((String × Nat) × FunctionTy)} {entries : List ((String × Nat) × Signature)},
      List.Forall₂ Records before entries → (before.map Prod.fst).Nodup →
      Decides (checkEach declareFunction (withFuns tables entries) nodes)
        (∃ headers, List.Forall₂ Header nodes headers ∧ ((before ++ headers).map Prod.fst).Nodup)
        fun outcome => ∃ headers entries', SignedAll nodes headers outcome.1 ∧
          ((before ++ headers).map Prod.fst).Nodup ∧
            List.Forall₂ Records (before ++ headers) entries' ∧
              outcome.2 = withFuns tables entries' := by
  induction nodes with
  | nil =>
    intro before entries hentries hnodup
    rw [checkEach]
    exact .done ⟨[], entries, .nil, by simpa using hnodup, by simpa using hentries, rfl⟩
  | cons node rest ih =>
    intro before entries hentries hnodup
    obtain ⟨hnode, hrest⟩ := List.forall_mem_cons.mp hnodes
    rw [checkEach]
    refine Decides.bind (decides_header hnode hentries) ?_ ?_
    · rintro ⟨_, _ | ⟨h, -⟩, hnodup⟩
      rename_i header headers _
      refine ⟨_, h, fun hmem => ?_⟩
      rw [List.map_append, List.map_cons] at hnodup
      exact List.disjoint_of_nodup_append hnodup hmem List.mem_cons_self
    rintro ⟨result, after⟩ ⟨header, entry, hsigned, hnew, hrecords, rfl⟩
    have hnodup' : ((before ++ [header]).map Prod.fst).Nodup := by
      rw [List.map_append]
      refine hnodup.append (List.nodup_singleton _) ?_
      rintro key hkey hsingle
      rw [List.map_cons, List.map_nil, List.mem_singleton] at hsingle
      exact hnew (hsingle ▸ hkey)
    refine ((ih hrest (List.rel_append hentries (.cons hrecords .nil)) hnodup').weaken ?_).map ?_
    · rintro ⟨_, _ | ⟨h, hheaders⟩, hall⟩
      rename_i headers
      refine ⟨headers, hheaders, ?_⟩
      rw [List.append_assoc, List.singleton_append, ← h.unique hsigned.header]
      exact hall
    · rintro ⟨results, behind⟩ ⟨headers, entries', hall, hnodup, hrecords, rfl⟩
      refine ⟨header :: headers, entries', .cons hsigned hall, ?_, ?_, rfl⟩
      · simpa using hnodup
      · simpa using hrecords

theorem rel_or {α β : Type} {r : α → β → Prop} {a? a'? : Option α} {b? b'? : Option β}
    (h : Option.Rel r a? b?) (h' : Option.Rel r a'? b'?) :
    Option.Rel r (a?.or a'?) (b?.or b'?) := by
  cases h with
  | some hr => exact .some hr
  | none => exact h'

theorem Records.rel_lookup {headers : List ((String × Nat) × FunctionTy)}
    {entries : List ((String × Nat) × Signature)} (h : List.Forall₂ Records headers entries)
    {key : String × Nat} :
    Option.Rel FunctionTy.Shows (headers.lookup key) (entries.lookup key) := by
  induction h with
  | nil => exact .none
  | @cons header entry _ _ hrecords _ ih =>
    rw [List.lookup_cons, List.lookup_cons, hrecords.1]
    split
    · exact .some hrecords.2.1
    · exact ih

theorem exists_of_mem_right {α β : Type} {r : α → β → Prop} {as : List α} {bs : List β}
    (h : List.Forall₂ r as bs) {b : β} (hb : b ∈ bs) : ∃ a ∈ as, r a b := by
  induction h with
  | nil => cases hb
  | cons hr _ ih =>
    rcases List.mem_cons.mp hb with rfl | hb
    · exact ⟨_, List.mem_cons_self, hr⟩
    · obtain ⟨a, ha, hr⟩ := ih hb
      exact ⟨a, List.mem_cons_of_mem _ ha, hr⟩

/-- Functions can be looked up when their headers are declared. -/
theorem Situated.withFuns (h : Situated Γ tables) (hfuns : tables.inner.funs = [])
    {headers : List ((String × Nat) × FunctionTy)} {entries : List ((String × Nat) × Signature)}
    (hentries : List.Forall₂ Records headers entries) :
    Situated (Γ.withFunctions headers) (withFuns tables entries) where
  vars := h.vars
  funs name arity := by
    have houter := h.funs name arity
    simp only [Tables.chain, Chain.findFunction?_cons, Frame.findFunction?, hfuns,
      List.lookup_nil, Option.none_or] at houter
    simp only [Judgement.withFuns, Tables.chain, Chain.findFunction?_cons, Frame.findFunction?,
      Environment.withFunctions]
    exact rel_or (Records.rel_lookup hentries) houter
  result := h.result
  wellFormed := by
    intro frame hframe
    rcases List.mem_cons.mp hframe with rfl | hmem
    · refine ⟨(h.wellFormed _ List.mem_cons_self).1, fun entry hentry => ?_⟩
      obtain ⟨header, -, -, -, hkey⟩ := exists_of_mem_right hentries hentry
      exact hkey
    · exact h.wellFormed frame (List.mem_cons_of_mem _ hmem)
  taken := h.taken

end

/-! ### Bodies -/

section

variable {Γ : Environment} {tables : Tables}

/-- The type of the result of a function stands in front of its parameters. -/
theorem Situated.withResult (h : Situated Γ tables) (ty : Ty) :
    ∃ declared, tables.enter.declare returnName (some ty) false false = .ok declared ∧
      Situated { Γ.enter with result? := some ty } declared.2 := by
  obtain ⟨⟨binding, after⟩, hdeclare⟩ : ∃ declared,
      tables.enter.declare returnName (some ty) false false = .ok declared :=
    ⟨_, Tables.declare_eq_ok_iff.mpr ⟨rfl, rfl, rfl⟩⟩
  have hfind := fun other => Tables.findVariable?_of_declare other hdeclare
  have hwellFormed := h.enter.wellFormed.declare hdeclare
  refine ⟨_, hdeclare, ⟨fun name hname => ?_, fun name arity => ?_, ?_, hwellFormed⟩,
    fun name hname => ?_⟩
  · rw [(hfind name).2, if_neg hname]
    exact h.enter.vars name hname
  · obtain ⟨-, -, rfl⟩ := Tables.declare_eq_ok_iff.mp hdeclare
    exact h.enter.funs name arity
  · obtain ⟨-, hbinding, -⟩ := Tables.declare_eq_ok_iff.mp hdeclare
    rw [(hfind returnName).2, if_pos rfl, hbinding]
    rfl
  · rw [(hfind name).1, if_neg hname]
    exact h.enter.taken name hname

/-- Parameters can be declared just if their names are new, and different from each other. -/
theorem decides_parameters {parameters : List (String × Ty)}
    (hparameters : ∀ parameter ∈ parameters, parameter.1 ≠ returnName) :
    ∀ {Γ : Environment} {tables : Tables}, Situated Γ tables →
      (∀ inside, parameters.foldlM (fun inside (name, ty) => do
        return (← Tables.declare inside name (some ty) true false).2) tables = .ok inside →
          Situated (Γ.withParameters parameters) inside ∧ (parameters.map Prod.fst).Nodup ∧
            ∀ parameter ∈ parameters, parameter.1 ∉ Γ.taken) ∧
      ((parameters.map Prod.fst).Nodup → (∀ parameter ∈ parameters, parameter.1 ∉ Γ.taken) →
        ∃ inside, parameters.foldlM (fun inside (name, ty) => do
          return (← Tables.declare inside name (some ty) true false).2) tables = .ok inside) := by
  induction parameters with
  | nil =>
    intro Γ tables htables
    refine ⟨?_, fun _ _ => ⟨tables, rfl⟩⟩
    rintro inside ⟨⟩
    exact ⟨htables, .nil, by simp⟩
  | cons parameter rest ih =>
    obtain ⟨name, ty⟩ := parameter
    obtain ⟨hname, hrest⟩ := List.forall_mem_cons.mp hparameters
    intro Γ tables htables
    rw [List.foldlM_cons]
    cases hdeclare : tables.declare name (some ty) true false with
    | error e =>
      simp only [hdeclare]
      refine ⟨nofun, fun _ hfree => ?_⟩
      obtain ⟨declared, hok⟩ :=
        (htables.declare_isOk_iff hname).mpr (hfree _ List.mem_cons_self)
      rw [hdeclare] at hok
      cases hok
    | ok declared =>
      obtain ⟨binding, between⟩ := declared
      simp only [hdeclare]
      have hfree := (htables.declare_isOk_iff hname).mp ⟨_, hdeclare⟩
      obtain ⟨hsound, hcomplete⟩ := ih hrest (htables.declare hdeclare hname)
      -- the names behind this one must differ from it, and be new as well
      have htaken : (∀ parameter ∈ rest, parameter.1 ∉ (Γ.declare name ⟨ty, true, false⟩).taken) ↔
          name ∉ rest.map Prod.fst ∧ ∀ parameter ∈ rest, parameter.1 ∉ Γ.taken := by
        simp only [Environment.declare, Set.mem_insert_iff, not_or, List.mem_map, not_exists,
          not_and, forall_and]
      refine ⟨fun inside hinside => ?_, fun hnodup hall => ?_⟩
      · obtain ⟨hsituated, hnodup, hall⟩ := hsound inside hinside
        obtain ⟨hnew, hall⟩ := htaken.mp hall
        exact ⟨hsituated, List.nodup_cons.mpr ⟨hnew, hnodup⟩,
          List.forall_mem_cons.mpr ⟨hfree, hall⟩⟩
      · obtain ⟨hnew, hnodup⟩ := List.nodup_cons.mp hnodup
        exact hcomplete hnodup (htaken.mpr ⟨hnew, (List.forall_mem_cons.mp hall).2⟩)

/-- The tables of a body can be made just if its parameters have different names. -/
theorem decides_bodyTables {signature : Signature} {f : FunctionTy} {parameters : List String}
    (htables : Situated Γ tables) (hf : f.Shows signature)
    (hparameters : ∀ parameter ∈ parameters, parameter ≠ returnName)
    (hlength : f.parameters.length = parameters.length) :
    (∀ inside, bodyTables tables signature parameters = .ok inside →
      Situated (Γ.body parameters f) inside ∧ parameters.Nodup) ∧
    (parameters.Nodup → ∃ inside, bodyTables tables signature parameters = .ok inside) := by
  obtain ⟨hparameterTypes, hresult⟩ := hf
  obtain ⟨⟨binding, start⟩, hdeclare, hstart⟩ := htables.withResult f.result
  have hnames : (parameters.zip f.parameters).map Prod.fst = parameters :=
    List.map_fst_zip hlength.ge
  have hzip : ∀ parameter ∈ parameters.zip f.parameters, parameter.1 ≠ returnName :=
    fun parameter hmem => hparameters _ (List.of_mem_zip hmem).1
  obtain ⟨hsound, hcomplete⟩ := decides_parameters hzip hstart
  rw [hnames] at hsound hcomplete
  rw [bodyTables, hresult, hdeclare, hparameterTypes]
  refine ⟨fun inside hinside => ?_, fun hnodup => ?_⟩
  · obtain ⟨hsituated, hnodup, -⟩ := hsound inside hinside
    exact ⟨hsituated, hnodup⟩
  · exact hcomplete hnodup fun _ _ => Set.notMem_empty _

/-- The check of the body of a function decides whether it is well typed. -/
theorem decides_function {node signed : Node} {header : (String × Nat) × FunctionTy}
    (hsigned : Signed node header signed) (htables : Situated Γ tables) :
    Decides (checkFunction tables signed) (Function Unread Γ node header.2)
      fun outcome => Function Exact Γ outcome.1 header.2 ∧ Header outcome.1 header ∧
        outcome.1.erase = node ∧ Situated Γ outcome.2 := by
  obtain ⟨hparameters, hbody, hlength, hheader, hshows⟩ := hsigned
  obtain ⟨hsound, hcomplete⟩ := decides_bodyTables htables hshows hparameters hlength
  rw [checkFunction]
  refine .ensure (fun inside hinside => ?_) ?_
  · obtain ⟨hsituated, hnodup⟩ := hsound inside hinside
    refine ((hbody hsituated).weaken ?_).map ?_
    · rintro ⟨-, h⟩
      exact h
    · rintro ⟨results, behind⟩ ⟨hresults, herase⟩
      obtain ⟨htypes, hresult⟩ := hheader
      exact ⟨.mk hnodup hresults, .mk htypes hresult, by rw [Node.erase, herase],
        htables.resume behind⟩
  · rintro ⟨hnodup, -⟩
    exact hcomplete hnodup

theorem decides_functions {nodes signed : List Node} {headers : List ((String × Nat) × FunctionTy)}
    (hsigned : SignedAll nodes headers signed) :
    ∀ {tables : Tables}, Situated Γ tables →
      Decides (checkEach checkFunction tables signed)
        (List.Forall₂ (fun node header => Function Unread Γ node header.2) nodes headers)
        fun outcome =>
          List.Forall₂ (fun node header => Function Exact Γ node header.2) outcome.1 headers ∧
            List.Forall₂ Header outcome.1 headers ∧ Node.eraseAll outcome.1 = nodes := by
  induction hsigned with
  | nil =>
    intro tables _
    rw [checkEach]
    exact .done ⟨.nil, .nil, rfl⟩
  | cons h _ ih =>
    intro tables htables
    rw [checkEach]
    refine Decides.bind (decides_function h htables) ?_ ?_
    · rintro (_ | ⟨hbody, -⟩)
      exact hbody
    rintro ⟨result, after⟩ ⟨hresult, hheader, herase, hafter⟩
    refine ((ih hafter).weaken ?_).map ?_
    · rintro (_ | ⟨-, hrest⟩)
      exact hrest
    · rintro ⟨results, behind⟩ ⟨hresults, hheaders, herases⟩
      exact ⟨.cons hresult hresults, .cons hheader hheaders, by rw [Node.eraseAll, herase, herases]⟩

end

end Judgement

end BlockScript

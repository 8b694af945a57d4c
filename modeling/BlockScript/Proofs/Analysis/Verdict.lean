import BlockScript.Proofs.Analysis.Program
import BlockScript.Proofs.Shaped.Tree
/-!
# The analysis comes to a verdict

A check can also fail because a tree cannot be walked: a part is missing, or stands in a place where
it has no meaning. Trees of the right shape have all their parts in place. So a check of such a tree
ends with a verdict: it finds no fault, or a rule of the language that is broken.

## Main definitions

* `Checked.IsVerdict` — a check that does not fail because of the form of a tree

## Main results

* `isVerdict_expression`, `isVerdict_statement`, `isVerdict_program` — trees of the right shape
-/

namespace BlockScript

open Node

namespace Checked

variable {α β γ : Type}

/-- A check finds no fault, or a rule of the language that is broken. -/
def IsVerdict (x : Checked α) : Prop :=
  ∀ error, x.fault ≠ some (.misshapen error)

namespace IsVerdict

theorem done (a : α) : (Checked.done a).IsVerdict :=
  nofun

theorem noted (level : Int) (text : String) (a : α) : (Checked.noted level text a).IsVerdict :=
  nofun

theorem refuse (a : α) (error : AnalysisError) : (Checked.refuse a error).IsVerdict :=
  nofun

theorem map {x : Checked α} {f : α → β} (h : x.IsVerdict) : (x.map f).IsVerdict :=
  h

/-- The second of two checks is only carried out on what the first one yields. -/
theorem bind {x : Checked α} {soFar : α → β} {next : α → Checked β} (h : x.IsVerdict)
    (hnext : ∀ a, x.Yields a → (next a).IsVerdict) : (x.bind soFar next).IsVerdict := by
  unfold Checked.bind
  split
  next fault hfault => exact h
  next hfault => exact hnext x.result ⟨hfault, rfl⟩

theorem ensure {requirement : Except AnalysisError γ} {soFar : β} {next : γ → Checked β}
    (h : ∀ c, requirement = .ok c → (next c).IsVerdict) :
    (Checked.ensure requirement soFar next).IsVerdict := by
  cases requirement with
  | ok c => exact h c rfl
  | error e => exact refuse soFar e

theorem ite {p : Prop} [Decidable p] {x y : Checked α} (hx : x.IsVerdict) (hy : y.IsVerdict) :
    (if p then x else y).IsVerdict := by
  split
  · exact hx
  · exact hy

end IsVerdict

end Checked

open Checked (IsVerdict)

/-! ### Expressions -/

section

variable {chain : StaticChain}

theorem isVerdict_arguments {nodes : List Node}
    (hnodes : ∀ node ∈ nodes, (checkExpression chain node).IsVerdict) :
    ∀ types : List Ty, (checkArguments chain nodes types).IsVerdict := by
  induction nodes with
  | nil => exact fun _ => .done _
  | cons node rest ih =>
    obtain ⟨hnode, hrest⟩ := List.forall_mem_cons.mp hnodes
    intro types
    cases types with
    | nil => exact .done _
    | cons type types => exact hnode.bind fun _ _ => .ensure fun _ _ => (ih hrest types).map

theorem isVerdict_values {nodes : List Node}
    (hnodes : ∀ node ∈ nodes, (checkExpression chain node).IsVerdict) :
    ∀ type : Option Ty, (checkValues chain nodes type).IsVerdict := by
  induction nodes with
  | nil => exact fun _ => .done _
  | cons node rest ih =>
    obtain ⟨hnode, hrest⟩ := List.forall_mem_cons.mp hnodes
    exact fun type => hnode.bind fun _ _ => .ensure fun _ _ => (ih hrest _).map

theorem isVerdict_access {name : String} {offset : Node} {type : Option Ty}
    {binding : Option Binding}
    (hoffset : offset.isNull = false → (checkExpression chain offset).IsVerdict) :
    (checkExpression chain (.access name offset type binding)).IsVerdict := by
  have hchecked : (if offset.isNull then Checked.done offset
      else checkExpression chain offset).IsVerdict := by
    split
    next => exact .done _
    next hnull => exact hoffset (by simpa using hnull)
  rw [checkExpression]
  refine hchecked.bind fun _ _ => .ite (.refuse _ _) (.ensure fun _ _ => ?_)
  exact .ite (.refuse _ _) (.ite (.refuse _ _) (.done _))

theorem isVerdict_expression {allowed : Scalar → Prop} (chain : StaticChain) :
    ∀ {node : Node}, IsExpression allowed node → (checkExpression chain node).IsVerdict
  | _, .literal _ => .done _
  | _, .group h => .ite ((isVerdict_expression chain h).bind fun _ _ => .done _) (.refuse _ _)
  | _, .binary hleft hright =>
    (isVerdict_expression chain hleft).bind fun _ _ =>
      (isVerdict_expression chain hright).bind fun _ _ => .ensure fun _ _ => .done _
  | _, .variable => isVerdict_access fun hnull => nomatch hnull
  | _, .element h => isVerdict_access fun _ => isVerdict_expression chain h
  | _, .call h => .ensure fun found _ =>
    (isVerdict_arguments (fun node hnode => isVerdict_expression chain (h node hnode))
      found.parameters).bind fun _ _ => .noted _ _ _
  | _, .listLiteral h =>
    (isVerdict_values (fun node hnode => isVerdict_expression chain (h node hnode)) _).map

theorem isVerdict_initial {allowed : Scalar → Prop} {value : Node} (h : IsInitial allowed value)
    (declared : Option Ty) : (checkInitial chain declared value).IsVerdict := by
  cases h with
  | absent => exact .done _
  | present h =>
    refine .ite (.done _) ((isVerdict_expression chain h).bind fun _ _ => ?_)
    cases declared with
    | none => exact .done _
    | some ty => exact .ensure fun _ _ => .done _

end

/-! ### Statements -/

/-- A case that has a value, or the last one without a value. -/
theorem isVerdict_case {tables : Tables} {condition : Option Ty} {value : Node}
    {body rest : List Node}
    (hvalue : value.isNull = false → (checkExpression tables.chain value).IsVerdict)
    (hbody : ∀ tables, (checkBlock tables body).IsVerdict)
    (hrest : ∀ tables, (checkCases tables condition rest).IsVerdict) :
    (checkCases tables condition (.case value body :: rest)).IsVerdict := by
  rw [checkCases]
  apply IsVerdict.bind
  · split
    next => exact .ite (.done _) (.refuse _ _)
    next hnull =>
      have hchecked := hvalue (by simpa using hnull)
      exact .ite (.refuse _ _) (hchecked.bind fun _ _ => .ensure fun _ _ => .done _)
  · exact fun _ _ => (hbody _).bind fun _ _ => (hrest _).map

theorem isVerdict_block {nodes : List Node}
    (hnodes : ∀ node ∈ nodes, ∀ tables : Tables, (checkStatement tables node).IsVerdict) :
    ∀ tables : Tables, (checkBlock tables nodes).IsVerdict := by
  induction nodes with
  | nil => exact fun _ => .done _
  | cons node rest ih =>
    obtain ⟨hnode, hrest⟩ := List.forall_mem_cons.mp hnodes
    exact fun tables => (hnode tables).bind fun _ _ => (ih hrest _).map

/-- A case whose value and body have verdicts. -/
inductive CaseHasVerdict : Node → Prop
  | mk {value body} :
      (value.isNull = false → ∀ chain : StaticChain, (checkExpression chain value).IsVerdict) →
      (∀ tables : Tables, (checkBlock tables body).IsVerdict) → CaseHasVerdict (.case value body)

theorem isVerdict_cases {nodes : List Node} (hnodes : ∀ node ∈ nodes, CaseHasVerdict node)
    (condition : Option Ty) : ∀ tables : Tables, (checkCases tables condition nodes).IsVerdict := by
  induction nodes with
  | nil => exact fun _ => .done _
  | cons node rest ih =>
    obtain ⟨hnode, hrest⟩ := List.forall_mem_cons.mp hnodes
    cases hnode with
    | mk hvalue hbody =>
      exact fun tables => isVerdict_case (fun hnull => hvalue hnull tables.chain) hbody (ih hrest)

section

variable {allowed : Scalar → Prop}

mutual

theorem isVerdict_statement : ∀ {node : Node}, IsStatement allowed node →
    ∀ tables : Tables, (checkStatement tables node).IsVerdict
  | _, .discard h, tables =>
    (isVerdict_expression tables.chain h).bind fun _ _ => .ite (.done _) (.refuse _ _)
  | _, .declaration h, _ =>
    .ite (.refuse _ _) <| .ensure fun declared _ =>
      (isVerdict_initial h declared).bind fun _ _ => .ensure fun _ _ => .done _
  | _, .assignment hreceiver hvalue, tables =>
    .ite ((isVerdict_expression tables.chain hvalue).bind fun _ _ =>
      (isVerdict_expression tables.chain hreceiver).bind fun _ _ => .ensure fun _ _ => .done _)
      (.refuse _ _)
  | _, .branch h hthen helse, tables => by
    have hthen := isVerdict_block fun node hnode => isVerdict_statement (hthen node hnode)
    have helse := isVerdict_block fun node hnode => isVerdict_statement (helse node hnode)
    exact (isVerdict_expression tables.chain h).bind fun _ _ => .ensure fun _ _ =>
      .ite (.refuse _ _) ((hthen _).bind fun _ _ => (helse _).map)
  | _, .switch h hcases, tables => by
    have hcases := isVerdict_cases fun node hnode => hasVerdict_of_isCase (hcases node hnode)
    exact (isVerdict_expression tables.chain h).bind fun _ _ => (hcases _ tables).map
  | _, .loop h hbody, tables => by
    have hbody := isVerdict_block fun node hnode => isVerdict_statement (hbody node hnode)
    exact (isVerdict_expression tables.chain h).bind fun _ _ => .ensure fun _ _ => (hbody _).map
  | _, .ret h, tables =>
    (isVerdict_expression tables.chain h).bind fun _ _ => .ensure fun _ _ => .ensure fun _ _ =>
      .done _

theorem hasVerdict_of_isCase : ∀ {node : Node}, IsCase allowed node → CaseHasVerdict node
  | _, .mk hvalue hbody =>
    .mk (fun hnull chain => isVerdict_expression chain (hvalue.isExpression hnull))
      (isVerdict_block fun node hnode => isVerdict_statement (hbody node hnode))

end

end

/-! ### Programs -/

theorem isVerdict_globalValue {tables : Tables} {name : String} {typeName : Option String}
    {value : Node} {rebuilt : Node → Node} {next : Node → Option Ty → Checked (Node × Tables)}
    (hvalue : ∀ declared,
      (checkInitial tables.chain declared (withElementTy declared value)).IsVerdict)
    (hnext : ∀ value ty, (next value ty).IsVerdict) :
    (checkGlobalValue tables name typeName value rebuilt next).IsVerdict :=
  .ite (.refuse _ _) <| .ensure fun declared _ => (hvalue declared).bind fun _ _ => hnext _ _

/-- The declared type is put into a list literal, which stays one. -/
theorem isInitial_withElementTy {allowed : Scalar → Prop} {value : Node}
    (h : IsInitial allowed value) (declared : Option Ty) :
    IsInitial allowed (withElementTy declared value) := by
  cases h with
  | absent => exact .absent
  | present h =>
    cases h with
    | listLiteral h => exact .present (.listLiteral h)
    | literal h => exact .present (.literal h)
    | group h => exact .present (.group h)
    | binary h h' => exact .present (.binary h h')
    | «variable» => exact .present .variable
    | element h => exact .present (.element h)
    | call h => exact .present (.call h)

theorem isVerdict_global {allowed : Scalar → Prop} {node : Node} (h : IsGlobal allowed node)
    (tables : Tables) : (checkGlobal tables node).IsVerdict := by
  cases h with
  | mk hvalue =>
    refine isVerdict_globalValue (fun declared => ?_) fun _ _ => .ensure fun _ _ => .noted _ _ _
    exact isVerdict_initial (isInitial_withElementTy hvalue declared) declared

/-- A function, declared or not, whose body has a verdict. -/
inductive HasVerdict : Option Signature → Node → Prop
  | mk {name parameters types resultType body signature} :
      (∀ tables : Tables, (checkBlock tables body).IsVerdict) →
      HasVerdict signature (.function name parameters types resultType body signature)

theorem exists_hasVerdict {allowed : Scalar → Prop} {node : Node} (h : IsFunction allowed node) :
    ∃ signature, HasVerdict signature node := by
  cases h with
  | mk hbody =>
    exact ⟨_, .mk (isVerdict_block fun node hnode => isVerdict_statement (hbody node hnode))⟩

theorem isVerdict_declareFunction {signature : Option Signature} {node : Node}
    (h : HasVerdict signature node) (tables : Tables) :
    (declareFunction tables node).IsVerdict := by
  cases h
  exact .ensure fun _ _ => .ensure fun _ _ => .noted _ _ _

/-- A declared function has a signature. -/
theorem hasVerdict_of_declareFunction {tables after : Tables} {signature : Option Signature}
    {node result : Node} (h : HasVerdict signature node)
    (hcheck : (declareFunction tables node).Yields (result, after)) :
    ∃ f, HasVerdict (some f) result := by
  cases h with
  | mk hbody =>
    simp only [declareFunction, Checked.yields_ensure, Checked.yields_noted,
      Prod.mk.injEq] at hcheck
    obtain ⟨f, -, -, -, rfl, -⟩ := hcheck
    exact ⟨f, .mk hbody⟩

theorem isVerdict_checkFunction {f : Signature} {node : Node} (h : HasVerdict (some f) node)
    (tables : Tables) : (checkFunction tables node).IsVerdict := by
  cases h with
  | mk hbody => exact .ensure fun inside _ => (hbody inside).map

theorem isVerdict_each {check : Tables → Node → Checked (Node × Tables)} {nodes : List Node}
    (hnodes : ∀ node ∈ nodes, ∀ tables, (check tables node).IsVerdict) :
    ∀ tables, (checkEach check tables nodes).IsVerdict := by
  induction nodes with
  | nil => exact fun _ => .done _
  | cons node rest ih =>
    obtain ⟨hnode, hrest⟩ := List.forall_mem_cons.mp hnodes
    exact fun tables => (hnode tables).bind fun _ _ => (ih hrest _).map

/-- Each function that was declared has a signature. -/
theorem hasVerdict_of_checkEach {nodes : List Node}
    (hnodes : ∀ node ∈ nodes, ∃ signature, HasVerdict signature node) :
    ∀ {tables after : Tables} {results : List Node},
      (checkEach declareFunction tables nodes).Yields (results, after) →
        ∀ node ∈ results, ∃ f, HasVerdict (some f) node := by
  induction nodes with
  | nil =>
    intro tables after results h
    simp only [checkEach, Checked.yields_done, Prod.mk.injEq] at h
    obtain ⟨rfl, -⟩ := h
    exact fun _ hnode => absurd hnode List.not_mem_nil
  | cons node rest ih =>
    intro tables after results h
    obtain ⟨hnode, hrest⟩ := List.forall_mem_cons.mp hnodes
    simp only [checkEach, Checked.yields_bind, Checked.yields_map, Prod.mk.injEq] at h
    obtain ⟨⟨result, between⟩, hresult, ⟨others, behind⟩, hothers, rfl, -⟩ := h
    obtain ⟨signature, hnode⟩ := hnode
    exact List.forall_mem_cons.mpr ⟨hasVerdict_of_declareFunction hnode hresult, ih hrest hothers⟩

/-- The analysis of a program comes to a verdict. -/
theorem isVerdict_program {allowed : Scalar → Prop} {node : Node} (h : IsProgram allowed node)
    (tables : Tables) : (checkProgram tables node).IsVerdict := by
  cases h with
  | mk hglobals hfunctions =>
    have hverdicts := fun node hnode => exists_hasVerdict (hfunctions node hnode)
    refine IsVerdict.bind (.noted _ _ _) fun _ _ => IsVerdict.bind ?_ fun _ _ =>
      IsVerdict.bind ?_ fun declared hdeclared => IsVerdict.map ?_
    · exact isVerdict_each (fun node hnode => isVerdict_global (hglobals node hnode)) _
    · refine isVerdict_each (fun node hnode => ?_) _
      obtain ⟨signature, hnode⟩ := hverdicts node hnode
      exact isVerdict_declareFunction hnode
    · refine isVerdict_each (fun node hnode => ?_) _
      obtain ⟨f, hnode⟩ := hasVerdict_of_checkEach hverdicts hdeclared node hnode
      exact isVerdict_checkFunction hnode

end BlockScript

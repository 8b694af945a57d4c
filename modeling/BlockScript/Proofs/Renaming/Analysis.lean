import BlockScript.Proofs.Analysis.Yields
import BlockScript.Proofs.Json.Tree
import BlockScript.Proofs.Renaming.Scope
/-!
# Analysis under other names

A check that finds no fault finds none in the renamed tree either, in renamed tables, and what it
yields is what it yielded, renamed: the same types, and bindings with the same numbers.

## Main definitions

* `Tables.renamed` — the same tables with new names
* `Checked.Carries` — one check yields what another one yields, renamed

## Main results

* `carries_expression`, `carries_statement` — expressions and statements
* `carries_program` — whole programs
-/

namespace BlockScript

open Node (renamed renamedAll)

variable {ρ : Renaming}

/-! ### Tables -/

namespace Tables

/-- Static tables with new names. -/
def renamedChain (ρ : Renaming) (chain : StaticChain) : StaticChain :=
  chain.map (Frame.renamed ρ (Binding.renamed ρ) (Signature.renamed ρ))

/-- What is known at a place of the renamed program. -/
def renamed (ρ : Renaming) (tables : Tables) : Tables :=
  { inner := tables.inner.renamed ρ (Binding.renamed ρ) (Signature.renamed ρ)
    outer := renamedChain ρ tables.outer
    fresh := tables.fresh }

variable {tables after : Tables} {name : String}

theorem declare_renamed (hρ : ρ.Separates) {type : Option Ty} {mutable isList : Bool}
    {binding : Binding} (h : tables.declare name type mutable isList = .ok (binding, after)) :
    (tables.renamed ρ).declare (ρ.varName name) type mutable isList =
      .ok (binding.renamed ρ, after.renamed ρ) := by
  obtain ⟨hnew, rfl, rfl⟩ := declare_eq_ok_iff.mp h
  have hnew' : (tables.renamed ρ).inner.findVariable? (ρ.varName name) = none := by
    rw [renamed, Frame.findVariable?_renamed hρ, hnew]
    rfl
  rw [declare_eq_ok_iff]
  refine ⟨hnew', rfl, ?_⟩
  simp [renamed, Frame.renamed, Binding.renamed]

theorem declareFunction_renamed (hρ : ρ.Separates) {f : Signature}
    (h : tables.declareFunction f = .ok after) :
    (tables.renamed ρ).declareFunction (f.renamed ρ) = .ok (after.renamed ρ) := by
  obtain ⟨hnew, rfl⟩ := declareFunction_eq_ok_iff.mp h
  have hnew' : (tables.renamed ρ).inner.findFunction? (ρ.funName f.name) f.arity = none := by
    rw [renamed, Frame.findFunction?_renamed hρ, hnew]
    rfl
  rw [declareFunction_eq_ok_iff]
  refine ⟨hnew', ?_⟩
  simp [renamed, Frame.renamed, Signature.renamed, Signature.arity]

end Tables

/-! ### Checks -/

namespace Checked

variable {α β γ δ : Type}

/-- What the first check yields, the second one yields under a map. -/
def Carries (f : α → β) (x : Checked α) (y : Checked β) : Prop :=
  ∀ a, x.Yields a → y.Yields (f a)

namespace Carries

variable {f : α → β} {x x' : Checked α} {y y' : Checked β} {a : α} {b : β}

theorem done (h : b = f a) : Carries f (.done a) (.done b) := by
  intro found hfound
  rw [yields_done] at hfound ⊢
  rw [h, hfound]

theorem noted {level level' : Int} {text text' : String} (h : b = f a) :
    Carries f (.noted level text a) (.noted level' text' b) := by
  intro found hfound
  rw [yields_noted] at hfound ⊢
  rw [h, hfound]

theorem refuse {error : AnalysisError} : Carries f (.refuse a error) y := by
  intro found hfound
  exact absurd hfound not_yields_refuse

theorem misshapen {error : ShapeError} : Carries f (.misshapen a error) y := by
  intro found hfound
  cases hfound.1

theorem map {g : γ → δ} {into : α → γ} {into' : β → δ} (h : Carries f x y)
    (hinto : ∀ a, into' (f a) = g (into a)) : Carries g (x.map into) (y.map into') := by
  intro found hfound
  obtain ⟨own, hown, rfl⟩ := yields_map.mp hfound
  exact yields_map.mpr ⟨f own, h own hown, hinto own⟩

theorem bind {g : γ → δ} {soFar : α → γ} {soFar' : β → δ} {next : α → Checked γ}
    {next' : β → Checked δ} (h : Carries f x y) (hnext : ∀ a, Carries g (next a) (next' (f a))) :
    Carries g (x.bind soFar next) (y.bind soFar' next') := by
  intro found hfound
  obtain ⟨own, hown, hbehind⟩ := yields_bind.mp hfound
  exact yields_bind.mpr ⟨f own, h own hown, hnext own found hbehind⟩

theorem ensure {g : γ → δ} {requirement : Except AnalysisError γ}
    {requirement' : Except AnalysisError δ} {next : γ → Checked α} {next' : δ → Checked β}
    (h : ∀ c, requirement = .ok c → requirement' = .ok (g c))
    (hnext : ∀ c, Carries f (next c) (next' (g c))) :
    Carries f (.ensure requirement a next) (.ensure requirement' b next') := by
  intro found hfound
  obtain ⟨c, hc, hbehind⟩ := yields_ensure.mp hfound
  exact yields_ensure.mpr ⟨g c, h c hc, hnext c found hbehind⟩

/-- A requirement that is about types is the same in both checks. -/
theorem ensure_same {requirement : Except AnalysisError γ} {next : γ → Checked α}
    {next' : γ → Checked β} (hnext : ∀ c, Carries f (next c) (next' c)) :
    Carries f (.ensure requirement a next) (.ensure requirement b next') :=
  ensure (fun _ hc => hc) hnext

theorem ite {p : Prop} [Decidable p] (h : Carries f x y) (h' : Carries f x' y') :
    Carries f (if p then x else x') (if p then y else y') := by
  by_cases hp : p
  · rwa [if_pos hp, if_pos hp]
  · rwa [if_neg hp, if_neg hp]

end Carries

end Checked

open Checked (Carries)

/-! ### Expressions -/

theorem findVariable_renamed (hρ : ρ.Separates) {chain : StaticChain} {name : String} (b : Binding)
    (h : chain.findVariable name = .ok b) :
    StaticChain.findVariable (Tables.renamedChain ρ chain) (ρ.varName name) =
      .ok (b.renamed ρ) := by
  rw [StaticChain.findVariable_eq_ok_iff] at h ⊢
  rw [Tables.renamedChain, Chain.findVariable?_renamed hρ, h]
  rfl

theorem findFunction_renamed (hρ : ρ.Separates) {chain : StaticChain} {name : String} {arity : Nat}
    (f : Signature) (h : chain.findFunction name arity = .ok f) :
    StaticChain.findFunction (Tables.renamedChain ρ chain) (ρ.funName name) arity =
      .ok (f.renamed ρ) := by
  rw [StaticChain.findFunction_eq_ok_iff] at h ⊢
  rw [Tables.renamedChain, Chain.findFunction?_renamed hρ, h]
  rfl

section

variable {chain : StaticChain}

mutual

theorem carries_expression (hρ : ρ.Separates) : ∀ node : Node,
    Carries (renamed ρ) (checkExpression chain node)
      (checkExpression (Tables.renamedChain ρ chain) (node.renamed ρ))
  | .literal value type => .done rfl
  | .group inner type => by
    rw [renamed, checkExpression, checkExpression, Node.kind?_renamed]
    apply Carries.ite _ .refuse
    apply (carries_expression hρ inner).bind
    intro inner
    rw [Node.type?_renamed]
    exact .done rfl
  | .binary symbol left right type => by
    rw [renamed, checkExpression, checkExpression]
    apply (carries_expression hρ left).bind
    intro left
    apply (carries_expression hρ right).bind
    intro right
    -- an operator asks for the types of its operands, which have no names
    rw [Node.type?_renamed, Node.type?_renamed]
    apply Carries.ensure_same
    intro ty
    exact .done rfl
  | .access name offset type binding => by
    rw [renamed, checkExpression, checkExpression, Node.isNull_renamed]
    have hoffset : Carries (renamed ρ)
        (if offset.isNull then Checked.done offset else checkExpression chain offset)
        (if offset.isNull then Checked.done (offset.renamed ρ)
          else checkExpression (Tables.renamedChain ρ chain) (offset.renamed ρ)) :=
      .ite (.done rfl) (carries_expression hρ offset)
    apply hoffset.bind
    intro offset
    rw [Node.type?_renamed, Node.isNull_renamed]
    apply Carries.ite .refuse
    apply Carries.ensure (findVariable_renamed hρ)
    intro found
    apply Carries.ite .refuse
    apply Carries.ite .refuse
    exact .done rfl
  | .call name arguments type callee => by
    rw [renamed, checkExpression, checkExpression, Node.length_renamedAll]
    apply Carries.ensure (findFunction_renamed hρ)
    intro found
    apply (carries_arguments hρ arguments found.parameters).bind
    intro arguments
    exact .noted rfl
  | .listLiteral values type => by
    rw [renamed, checkExpression, checkExpression]
    apply (carries_values hρ values type).map
    intro outcome
    rfl
  | .null | .discard .. | .declaration .. | .assignment .. | .branch .. | .case .. | .switch ..
  | .loop .. | .ret .. | .global .. | .function .. | .program .. => .misshapen

theorem carries_arguments (hρ : ρ.Separates) : ∀ (nodes : List Node) (types : List Ty),
    Carries (renamedAll ρ) (checkArguments chain nodes types)
      (checkArguments (Tables.renamedChain ρ chain) (renamedAll ρ nodes) types)
  | argument :: rest, parameter :: parameters => by
    rw [renamedAll, checkArguments, checkArguments]
    apply (carries_expression hρ argument).bind
    intro argument
    rw [Node.type?_renamed]
    apply Carries.ensure_same
    intro _
    apply (carries_arguments hρ rest parameters).map
    intro rest
    rfl
  | [], _ => .done rfl
  | _ :: _, [] => .done rfl

theorem carries_values (hρ : ρ.Separates) : ∀ (nodes : List Node) (type : Option Ty),
    Carries (Prod.map (renamedAll ρ) id) (checkValues chain nodes type)
      (checkValues (Tables.renamedChain ρ chain) (renamedAll ρ nodes) type)
  | [], type => .done rfl
  | value :: rest, type => by
    rw [renamedAll, checkValues, checkValues]
    apply (carries_expression hρ value).bind
    intro value
    rw [Node.type?_renamed]
    apply Carries.ensure_same
    intro _
    apply (carries_values hρ rest _).map
    intro outcome
    rfl

end

theorem carries_initial (hρ : ρ.Separates) (declared : Option Ty) (value : Node) :
    Carries (Prod.map (renamed ρ) id) (checkInitial chain declared value)
      (checkInitial (Tables.renamedChain ρ chain) declared (value.renamed ρ)) := by
  rw [checkInitial, checkInitial, Node.isNull_renamed]
  apply Carries.ite (.done rfl)
  apply (carries_expression hρ value).bind
  intro value
  rw [Node.type?_renamed]
  cases declared with
  | none => exact .done rfl
  | some ty =>
    apply Carries.ensure_same
    intro _
    exact .done rfl

end

/-! ### Statements -/

/-- What is left behind a node, renamed. -/
def renamedOutcome (ρ : Renaming) (outcome : Node × Tables) : Node × Tables :=
  (outcome.1.renamed ρ, outcome.2.renamed ρ)

/-- What is left behind several nodes, renamed. -/
def renamedOutcomes (ρ : Renaming) (outcome : List Node × Tables) : List Node × Tables :=
  (renamedAll ρ outcome.1, outcome.2.renamed ρ)

theorem requireReceiver_renamed {value receiver : Node} (u : Unit)
    (h : requireReceiver value receiver = .ok u) :
    requireReceiver (value.renamed ρ) (receiver.renamed ρ) = .ok u := by
  cases receiver with
  | access name offset type binding =>
    cases binding with
    | none => cases h
    | some binding =>
      rw [requireReceiver] at h
      rw [renamed, Option.map_some, requireReceiver, Node.type?_renamed]
      by_cases hmutable : binding.mutable = true
      · rw [if_pos hmutable] at h
        exact (if_pos hmutable).trans h
      · rw [if_neg hmutable] at h
        cases h
  | _ => cases h

theorem resultTyAt_renamed (hρ : ρ.Regular) {chain : StaticChain} (type : Option Ty)
    (h : resultTyAt chain = .ok type) : resultTyAt (Tables.renamedChain ρ chain) = .ok type := by
  have hfind : Chain.findVariable? (Tables.renamedChain ρ chain) (ρ.varName returnName) =
      (Chain.findVariable? chain returnName).map (Binding.renamed ρ) :=
    Chain.findVariable?_renamed hρ.toSeparates
  -- the type of the result is bound to a name that is kept
  rw [hρ.varName_returnName] at hfind
  rw [resultTyAt] at h
  rw [resultTyAt, hfind]
  cases hfound : Chain.findVariable? chain returnName with
  | none =>
    rw [hfound] at h
    cases h
  | some binding =>
    rw [hfound] at h
    exact h

mutual

theorem carries_statement (hρ : ρ.Regular) : ∀ (tables : Tables) (node : Node),
    Carries (renamedOutcome ρ) (checkStatement tables node)
      (checkStatement (tables.renamed ρ) (node.renamed ρ))
  | tables, .discard expression => by
    rw [renamed, checkStatement, checkStatement]
    apply (carries_expression hρ.toSeparates expression).bind
    intro expression
    rw [Node.kind?_renamed]
    exact .ite (.done rfl) .refuse
  | tables, .declaration name typeName value binding => by
    rw [renamed, checkStatement, checkStatement, Node.isNull_renamed]
    apply Carries.ite .refuse
    apply Carries.ensure_same
    intro declared
    apply (carries_initial hρ.toSeparates declared value).bind
    intro initial
    apply Carries.ensure (g := Prod.map (Binding.renamed ρ) (Tables.renamed ρ))
    · intro outcome houtcome
      exact Tables.declare_renamed hρ.toSeparates houtcome
    · intro outcome
      exact .done rfl
  | tables, .assignment receiver value => by
    rw [renamed, checkStatement, checkStatement, Node.kind?_renamed]
    apply Carries.ite _ .refuse
    apply (carries_expression hρ.toSeparates value).bind
    intro value
    apply (carries_expression hρ.toSeparates receiver).bind
    intro receiver
    apply Carries.ensure requireReceiver_renamed
    intro _
    exact .done rfl
  | tables, .branch condition thenBody elseBody => by
    rw [renamed, checkStatement, checkStatement, Node.isEmpty_renamedAll]
    apply (carries_expression hρ.toSeparates condition).bind
    intro condition
    rw [Node.type?_renamed]
    apply Carries.ensure_same
    intro _
    apply Carries.ite .refuse
    apply (carries_block hρ tables.enter thenBody).bind
    intro inThen
    apply (carries_block hρ (tables.resume inThen.2).enter elseBody).map
    intro inElse
    rfl
  | tables, .switch condition cases => by
    rw [renamed, checkStatement, checkStatement]
    apply (carries_expression hρ.toSeparates condition).bind
    intro condition
    rw [Node.type?_renamed]
    apply (carries_cases hρ tables condition.type? cases).map
    intro outcome
    rfl
  | tables, .loop condition body => by
    rw [renamed, checkStatement, checkStatement]
    apply (carries_expression hρ.toSeparates condition).bind
    intro condition
    rw [Node.type?_renamed]
    apply Carries.ensure_same
    intro _
    apply (carries_block hρ tables.enter body).map
    intro inside
    rfl
  | tables, .ret value => by
    rw [renamed, checkStatement, checkStatement]
    apply (carries_expression hρ.toSeparates value).bind
    intro value
    apply Carries.ensure (g := id) (resultTyAt_renamed hρ)
    intro result
    rw [Node.type?_renamed]
    apply Carries.ensure_same
    intro _
    exact .done rfl
  | _, .null | _, .literal .. | _, .group .. | _, .binary .. | _, .access .. | _, .call ..
  | _, .listLiteral .. | _, .case .. | _, .global .. | _, .function .. | _, .program .. =>
    .misshapen

theorem carries_block (hρ : ρ.Regular) : ∀ (tables : Tables) (nodes : List Node),
    Carries (renamedOutcomes ρ) (checkBlock tables nodes)
      (checkBlock (tables.renamed ρ) (renamedAll ρ nodes))
  | _, [] => .done rfl
  | tables, statement :: rest => by
    rw [renamedAll, checkBlock, checkBlock]
    apply (carries_statement hρ tables statement).bind
    intro outcome
    apply (carries_block hρ outcome.2 rest).map
    intro behind
    rfl

theorem carries_cases (hρ : ρ.Regular) : ∀ (tables : Tables) (condition : Option Ty)
    (nodes : List Node),
    Carries (renamedOutcomes ρ) (checkCases tables condition nodes)
      (checkCases (tables.renamed ρ) condition (renamedAll ρ nodes))
  | _, _, [] => .done rfl
  | tables, condition, node :: rest => by
    cases node with
    | case value body =>
      rw [renamedAll, renamed, checkCases, checkCases, Node.isNull_renamed,
        Node.isEmpty_renamedAll]
      have hvalue : Carries (renamed ρ)
          ((checkExpression tables.chain value).bind (fun value => value) fun value =>
            .ensure (requireAccepted condition value.type?) value fun _ => .done value)
          ((checkExpression (tables.renamed ρ).chain (value.renamed ρ)).bind (fun value => value)
            fun value =>
              .ensure (requireAccepted condition value.type?) value fun _ => .done value) := by
        apply (carries_expression hρ.toSeparates value).bind
        intro value
        rw [Node.type?_renamed]
        apply Carries.ensure_same
        intro _
        exact .done rfl
      apply Carries.bind (.ite (.ite (.done rfl) .refuse) (.ite .refuse hvalue))
      intro value
      apply (carries_block hρ tables.enter body).bind
      intro inside
      apply (carries_cases hρ (tables.resume inside.2) condition rest).map
      intro behind
      rfl
    | _ =>
      -- whatever else stands among the cases, there is nothing to carry over
      rw [checkCases]
      · intro found hfound
        obtain ⟨result, hresult, -⟩ := Checked.yields_map.mp hfound
        exact absurd hresult not_yields_strayCase
      all_goals exact nofun

end

/-! ### Programs -/

theorem withElementTy_renamed (declared : Option Ty) (node : Node) :
    withElementTy declared (node.renamed ρ) = (withElementTy declared node).renamed ρ := by
  cases node <;> rfl

theorem carries_globalValue (hρ : ρ.Regular) {tables : Tables} {name name' : String}
    {typeName : Option String} {value : Node} {rebuilt rebuilt' : Node → Node}
    {next next' : Node → Option Ty → Checked (Node × Tables)}
    (hnext : ∀ value ty, Carries (renamedOutcome ρ) (next value ty) (next' (value.renamed ρ) ty)) :
    Carries (renamedOutcome ρ) (checkGlobalValue tables name typeName value rebuilt next)
      (checkGlobalValue (tables.renamed ρ) name' typeName (value.renamed ρ) rebuilt' next') := by
  rw [checkGlobalValue, checkGlobalValue, Node.isNull_renamed]
  apply Carries.ite .refuse
  apply Carries.ensure_same
  intro declared
  rw [withElementTy_renamed]
  apply (carries_initial hρ.toSeparates declared (withElementTy declared value)).bind
  intro initial
  exact hnext initial.1 initial.2

theorem carries_global (hρ : ρ.Regular) (tables : Tables) (node : Node) :
    Carries (renamedOutcome ρ) (checkGlobal tables node)
      (checkGlobal (tables.renamed ρ) (node.renamed ρ)) := by
  cases node with
  | global name mutable typeName value isList binding =>
    apply carries_globalValue hρ
    intro value ty
    apply Carries.ensure (g := Prod.map (Binding.renamed ρ) (Tables.renamed ρ))
    · intro outcome houtcome
      exact Tables.declare_renamed hρ.toSeparates houtcome
    · intro outcome
      exact .noted rfl
  | declaration name typeName value binding =>
    apply carries_globalValue hρ
    intro value ty
    exact .misshapen
  | _ => exact .misshapen

theorem signatureOf_renamed {name : String} {parameterTypes : List (Option String)}
    {resultType : Option String} (f : Signature)
    (h : signatureOf name parameterTypes resultType = .ok f) :
    signatureOf (ρ.funName name) parameterTypes resultType = .ok (f.renamed ρ) := by
  rw [signatureOf, bind_eq_ok_iff] at h
  obtain ⟨parameters, hparameters, h⟩ := h
  obtain ⟨result, hresult, h⟩ := bind_eq_ok_iff.mp h
  cases h
  rw [signatureOf, hparameters, ok_bind, hresult]
  rfl

theorem carries_declareFunction (hρ : ρ.Regular) (tables : Tables) (node : Node) :
    Carries (renamedOutcome ρ) (declareFunction tables node)
      (declareFunction (tables.renamed ρ) (node.renamed ρ)) := by
  cases node with
  | function name parameters parameterTypes resultType body signature =>
    apply Carries.ensure signatureOf_renamed
    intro found
    apply Carries.ensure (g := Tables.renamed ρ)
    · intro after hafter
      exact Tables.declareFunction_renamed hρ.toSeparates hafter
    · intro after
      exact .noted rfl
  | _ => exact .misshapen

/-- The parameters are declared one after another. -/
theorem declareParameters_renamed (hρ : ρ.Separates) (parameters : List (String × Ty))
    {start after : Tables}
    (h : parameters.foldlM (fun inside parameter => do
      return (← inside.declare parameter.1 (some parameter.2) true false).2) start = .ok after) :
    (parameters.map (Prod.map ρ.varName id)).foldlM (fun inside parameter => do
      return (← Tables.declare inside parameter.1 (some parameter.2) true false).2)
        (start.renamed ρ) = Except.ok (after.renamed ρ) := by
  induction parameters generalizing start with
  | nil =>
    cases h
    rfl
  | cons parameter rest ih =>
    rw [List.foldlM_cons, bind_eq_ok_iff] at h
    obtain ⟨between, hbetween, hrest⟩ := h
    obtain ⟨declared, hdeclared, hresult⟩ := bind_eq_ok_iff.mp hbetween
    cases hresult
    rw [List.map_cons, List.foldlM_cons]
    have hrenamed := Tables.declare_renamed (ρ := ρ) hρ hdeclared
    simp only [Prod.map_fst, Prod.map_snd, id]
    rw [hrenamed]
    exact ih hrest

theorem bodyTables_renamed (hρ : ρ.Regular) {tables : Tables} {f : Signature}
    {parameters : List String} (inside : Tables) (h : bodyTables tables f parameters = .ok inside) :
    bodyTables (tables.renamed ρ) (f.renamed ρ) (parameters.map ρ.varName) =
      .ok (inside.renamed ρ) := by
  rw [bodyTables, bind_eq_ok_iff] at h
  obtain ⟨⟨binding, start⟩, hstart, hparameters⟩ := h
  -- the type of the result is declared first, under a name that is kept
  have hresult := Tables.declare_renamed hρ.toSeparates hstart
  rw [hρ.varName_returnName] at hresult
  have hrest := declareParameters_renamed hρ.toSeparates _ hparameters
  have hzip : (parameters.map ρ.varName).zip (f.renamed ρ).parameters =
      (parameters.zip f.parameters).map (Prod.map ρ.varName id) := by
    rw [List.zip_map_left]
    rfl
  rw [bodyTables, hzip]
  exact bind_eq_ok_iff.mpr ⟨_, hresult, hrest⟩

theorem carries_function (hρ : ρ.Regular) (tables : Tables) (node : Node) :
    Carries (renamedOutcome ρ) (checkFunction tables node)
      (checkFunction (tables.renamed ρ) (node.renamed ρ)) := by
  cases node with
  | function name parameters parameterTypes resultType body signature =>
    cases signature with
    | none => exact .misshapen
    | some f =>
      apply Carries.ensure (bodyTables_renamed hρ)
      intro inside
      apply (carries_block hρ inside body).map
      intro behind
      rfl
  | _ => exact .misshapen

theorem carries_each {check : Tables → Node → Checked (Node × Tables)}
    (hcheck : ∀ tables node, Carries (renamedOutcome ρ) (check tables node)
      (check (tables.renamed ρ) (node.renamed ρ))) : ∀ (tables : Tables) (nodes : List Node),
    Carries (renamedOutcomes ρ) (checkEach check tables nodes)
      (checkEach check (tables.renamed ρ) (renamedAll ρ nodes))
  | _, [] => .done rfl
  | tables, node :: rest => by
    rw [renamedAll, checkEach, checkEach]
    apply (hcheck tables node).bind
    intro outcome
    apply (carries_each hcheck outcome.2 rest).map
    intro behind
    rfl

/-- A program that is accepted is accepted under its new names, and annotated alike. -/
theorem carries_program (hρ : ρ.Regular) (tables : Tables) (node : Node) :
    Carries (renamedOutcome ρ) (checkProgram tables node)
      (checkProgram (tables.renamed ρ) (node.renamed ρ)) := by
  cases node with
  | program globals functions =>
    rw [renamed, checkProgram, checkProgram]
    apply Carries.bind (.noted (f := id) rfl)
    intro _
    -- global variables, headers of functions, and bodies of functions, in this order
    apply (carries_each (carries_global hρ) tables globals).bind
    intro behindGlobals
    apply (carries_each (carries_declareFunction hρ) behindGlobals.2 functions).bind
    intro behindHeaders
    apply (carries_each (carries_function hρ) behindHeaders.2 behindHeaders.1).map
    intro behind
    rfl
  | _ => exact .misshapen

/-- The only name at the beginning is that of `print`. -/
theorem renamed_initial (hρ : ρ.Regular) : Tables.initial.renamed ρ = .initial := by
  simp [Tables.renamed, Tables.renamedChain, Tables.initial, Tables.builtins, builtinFrame,
    Frame.renamed, Signature.renamed, hρ.funName_print, hρ.funName_javaName]

end BlockScript

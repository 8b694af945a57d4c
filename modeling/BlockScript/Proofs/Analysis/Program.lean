import BlockScript.Proofs.Analysis.Soundness
import Mathlib.Data.List.Forall2
/-!
# Accepted programs are well typed

The analysis goes through a program three times: through the global variables, through the
signatures of the functions, and through their bodies. The trees that it leaves say what the
bindings of the global variables and of the declarations are, but not those of parameters, which
stand in the tables of the bodies only and are computed here.

## Main definitions

* `parameterBindings` — the bindings of the parameters of all functions

## Main results

* `typed_of_checkProgram` — accepted programs are well typed
-/

namespace BlockScript

open Grammar
open Checked
open BlockScript.Parser (AllLexed)
open Tables (WellFormed)

/-! ### Global variables -/

mutual

/-- An expression is no list literal, and has no type of elements. -/
theorem withElementTy_expression : ∀ {tier : Parser.Tier} {used : List Token} {node : Node},
    Expression tier used node → ∀ declared, withElementTy declared node = node
  | _, _, _, .operand h, declared => withElementTy_operand h declared
  | _, _, _, .binary _ _ _ _, _ => rfl

theorem withElementTy_operand : ∀ {tier : Parser.Tier} {used : List Token} {node : Node},
    Operand tier used node → ∀ declared, withElementTy declared node = node
  | _, _, _, .tighter _ h, declared => withElementTy_expression h declared
  | _, _, _, .primary _ h, _ => by cases h <;> rfl

end

theorem withElementTy_initial {used : List Token} {value : Node} (h : Initial used value)
    (declared : Option Ty) : withElementTy declared value = value := by
  cases h with
  | absent => rfl
  | present _ h => exact withElementTy_expression h declared

theorem yields_checkGlobalValue {tables : Tables} {name : String} {typeName : Option String}
    {value : Node} {rebuilt : Node → Node} {next : Node → Option Ty → Checked (Node × Tables)}
    {result : Node × Tables} :
    (checkGlobalValue tables name typeName value rebuilt next).Yields result ↔
      (typeName.isSome = true ∨ value.isNull = false) ∧
        ∃ declared, resolveTy typeName = .ok declared ∧ ∃ checked type,
          (checkInitial tables.chain declared (withElementTy declared value)).Yields
            (checked, type) ∧ (next checked type).Yields result := by
  unfold checkGlobalValue
  cases typeName <;> cases value.isNull <;> simp

/-- A global variable that is no list. -/
theorem typedGlobal_value {tables after : Tables} {name : String} {mutable : Bool}
    {typeName : Option String} {value result : Node} (hname : name ≠ returnName)
    (hvalue : value.isNull = false → Sound tables.chain value)
    (helement : ∀ declared, withElementTy declared value = value)
    (hcheck : (checkGlobal tables (.global name mutable typeName value false none)).Yields
      (result, after)) : TypedGlobal tables result after := by
  simp only [checkGlobal, yields_checkGlobalValue, yields_ensure, yields_noted,
    Prod.mk.injEq] at hcheck
  obtain ⟨hbare, declared, hdeclared, checked, type, hinitial, ⟨binding, between⟩, hdeclare, rfl,
    rfl⟩ := hcheck
  rw [helement] at hinitial
  have hsome : declared.isSome = true ∨ value.isNull = false := by
    rwa [resolveTy_isSome hdeclared]
  obtain ⟨ty, rfl, htyped⟩ := typedInitial_of_checkInitial hvalue hsome hinitial
  exact .value hname htyped hdeclare

/-- A list. -/
theorem typedGlobal_list {tables after : Tables} {name : String} {typeName : Option String}
    {values : List Node} {result : Node} (hname : name ≠ returnName)
    (hvalues : ∀ value ∈ values, Sound tables.chain value) (hne : values ≠ [])
    (hcheck : (checkGlobal tables
      (.global name true typeName (.listLiteral values none) true none)).Yields
      (result, after)) : TypedGlobal tables result after := by
  simp only [checkGlobal, yields_checkGlobalValue, yields_ensure, yields_noted,
    Prod.mk.injEq, withElementTy] at hcheck
  obtain ⟨-, declared, -, checked, type, hinitial, ⟨binding, between⟩, hdeclare, rfl, rfl⟩ := hcheck
  simp only [checkInitial, Node.isNull, Bool.false_eq_true, if_false, checkExpression, yields_bind,
    yields_map] at hinitial
  obtain ⟨literal, ⟨⟨results, elementTy⟩, hresults, rfl⟩, hinitial⟩ := hinitial
  obtain ⟨hsome, hkept, htyped⟩ := typedValues_of_sound hvalues hresults
  obtain ⟨ty, rfl⟩ := Option.isSome_iff_exists.mp (hsome hne)
  cases declared with
  | none =>
    simp only [yields_done, Prod.mk.injEq, Node.type?] at hinitial
    obtain ⟨rfl, rfl⟩ := hinitial
    exact .list hname (htyped ty rfl) hdeclare
  | some declared =>
    -- a declared type is the element type from the beginning
    obtain rfl : ty = declared := Option.some.inj (hkept declared rfl)
    simp only [yields_ensure, yields_done, Prod.mk.injEq] at hinitial
    obtain ⟨-, -, rfl, rfl⟩ := hinitial
    exact .list hname (htyped _ rfl) hdeclare

theorem typedGlobal_of_checkGlobal {used : List Token} {node : Node} (h : Global used node)
    (hused : AllLexed used) {tables after : Tables} {result : Node}
    (htables : WellFormed tables.chain)
    (hcheck : (checkGlobal tables node).Yields (result, after)) :
    TypedGlobal tables result after := by
  cases h with
  | list _ _ _ _ _ hvalues _ _ =>
    have hlexed := hused.tail.tail.right.tail.tail.left
    refine typedGlobal_list (ne_returnName_of_lexed hused.tail.head)
      (sound_expressions htables hvalues hlexed) ?_ hcheck
    cases hvalues <;> simp
  | «mutable» _ _ _ hvalue _ =>
    exact typedGlobal_value (ne_returnName_of_lexed hused.tail.head)
      (sound_initial htables hvalue hused.tail.tail.right.left)
      (withElementTy_initial hvalue) hcheck
  | constant _ _ _ _ hvalue _ =>
    exact typedGlobal_value (ne_returnName_of_lexed hused.tail.head)
      (fun _ => sound_expression htables hvalue hused.tail.tail.right.tail.left)
      (withElementTy_expression hvalue) hcheck

theorem TypedGlobal.grows {tables after : Tables} {node : Node}
    (h : TypedGlobal tables node after) : tables.Grows after := by
  cases h with
  | list hname _ hdeclare => exact .declare hname hdeclare .refl
  | value hname _ hdeclare => exact .declare hname hdeclare .refl

theorem TypedGlobals.grows {tables after : Tables} {nodes : List Node}
    (h : TypedGlobals tables nodes after) : tables.Grows after := by
  induction h with
  | nil => exact .refl
  | cons h _ ih => exact h.grows.trans ih

theorem typedGlobals_of_checkEach {used : List Token} {nodes : List Node}
    (h : Many Global used nodes) (hused : AllLexed used) {tables after : Tables}
    {results : List Node} (htables : WellFormed tables.chain)
    (hcheck : (checkEach checkGlobal tables nodes).Yields (results, after)) :
    TypedGlobals tables results after := by
  induction h generalizing tables results with
  | nil =>
    simp only [checkEach, yields_done, Prod.mk.injEq] at hcheck
    obtain ⟨rfl, rfl⟩ := hcheck
    exact .nil
  | cons h _ ih =>
    simp only [checkEach, yields_bind, yields_map, Prod.mk.injEq] at hcheck
    obtain ⟨⟨result, between⟩, hresult, ⟨others, behind⟩, hothers, rfl, rfl⟩ := hcheck
    have htyped := typedGlobal_of_checkGlobal h hused.left htables hresult
    exact .cons htyped (ih hused.right (htyped.grows.wellFormed htables) hothers)

/-! ### Signatures -/

/-- A function of a source text, which may have got its signature. -/
inductive SoundFunction : Node → Prop
  | mk {name parameters types resultType body signature} :
      (∀ parameter ∈ parameters, parameter ≠ returnName) → types.length = parameters.length →
      SoundBlock body →
      SoundFunction (.function name parameters types resultType body signature)

theorem parameters_ne_returnName {used : List Token} {params : List (String × Option String)}
    (h : Parameters used params) (hused : AllLexed used) :
    ∀ parameter ∈ params.map Prod.fst, parameter ≠ returnName := by
  induction h with
  | one _ _ =>
    intro parameter hmem
    obtain rfl := List.mem_singleton.mp hmem
    exact ne_returnName_of_lexed hused.head
  | cons _ _ _ _ ih =>
    intro parameter hmem
    rcases List.mem_cons.mp hmem with rfl | hmem
    · exact ne_returnName_of_lexed hused.head
    · exact ih hused.tail.right.tail parameter hmem

theorem soundFunction_of_function {used : List Token} {node : Node} (h : Function used node)
    (hused : AllLexed used) : SoundFunction node := by
  cases h with
  | mk _ _ _ hparams _ _ _ hbody _ =>
    have hrest := hused.tail.tail.tail
    refine .mk ?_ (by simp) (sound_block hbody hrest.right.tail.right.tail.left)
    -- a function without parameters, and one with some
    rcases hparams with ⟨rfl, rfl⟩ | hparams
    · simp
    · exact parameters_ne_returnName hparams hrest.left

theorem soundFunction_of_many {used : List Token} {nodes : List Node}
    (h : Many Function used nodes) (hused : AllLexed used) :
    ∀ node ∈ nodes, SoundFunction node := by
  induction h with
  | nil => simp
  | cons h _ ih =>
    exact List.forall_mem_cons.mpr ⟨soundFunction_of_function h hused.left, ih hused.right⟩

theorem mapM_eq_ok_iff {α β ε : Type} {f : α → Except ε β} {xs : List α} {ys : List β} :
    xs.mapM f = .ok ys ↔ List.Forall₂ (fun x y => f x = .ok y) xs ys := by
  induction xs generalizing ys with
  | nil => cases ys <;> simp [pure, Except.pure]
  | cons x rest ih =>
    rw [List.mapM_cons, List.forall₂_cons_left_iff]
    constructor
    · intro h
      cases hx : f x with
      | error e =>
        rw [hx] at h
        cases h
      | ok y =>
        cases hrest : rest.mapM f with
        | error e =>
          rw [hx, hrest] at h
          cases h
        | ok others =>
          rw [hx, hrest] at h
          cases h
          exact ⟨y, others, rfl, ih.mp hrest, rfl⟩
    · rintro ⟨y, others, hx, hrest, rfl⟩
      rw [hx, ih.mpr hrest]
      rfl

theorem signatureOf_eq_ok {name : String} {types : List (Option String)}
    {resultType : Option String} {f : Signature} (h : signatureOf name types resultType = .ok f) :
    f.name = name ∧ f.javaName = name ∧ f.parameters.length = types.length := by
  unfold signatureOf at h
  cases hparameters : types.mapM fun typeName => do
      return (← resolveTy typeName).getD Ty.any with
  | error e =>
    rw [hparameters] at h
    cases h
  | ok parameters =>
    rw [hparameters] at h
    cases hresult : resolveTy resultType with
    | error e =>
      rw [hresult] at h
      cases h
    | ok result =>
      rw [hresult] at h
      cases h
      exact ⟨rfl, rfl, (mapM_eq_ok_iff.mp hparameters).length_eq.symm⟩

theorem declaredFunctions_of_checkEach {nodes : List Node}
    (hnodes : ∀ node ∈ nodes, SoundFunction node) :
    ∀ {tables after : Tables} {results : List Node},
      (checkEach declareFunction tables nodes).Yields (results, after) →
        DeclaredFunctions tables results after ∧ ∀ node ∈ results, SoundFunction node := by
  induction nodes with
  | nil =>
    intro tables after results h
    simp only [checkEach, yields_done, Prod.mk.injEq] at h
    obtain ⟨rfl, rfl⟩ := h
    exact ⟨.nil, by simp⟩
  | cons node rest ih =>
    intro tables after results h
    simp only [checkEach, yields_bind, yields_map, Prod.mk.injEq] at h
    obtain ⟨⟨result, between⟩, hresult, ⟨others, behind⟩, hothers, rfl, rfl⟩ := h
    obtain ⟨hdeclared, hsound⟩ := ih (fun node hmem => hnodes node (List.mem_cons_of_mem _ hmem))
      hothers
    obtain ⟨hparameters, hlength, hbody⟩ := hnodes node List.mem_cons_self
    simp only [declareFunction, yields_ensure, yields_noted, Prod.mk.injEq] at hresult
    obtain ⟨f, hf, between', hbetween, rfl, rfl⟩ := hresult
    obtain ⟨hname, hjava, harity⟩ := signatureOf_eq_ok hf
    exact ⟨.cons hname hjava (harity.trans hlength) hbetween hdeclared,
      List.forall_mem_cons.mpr ⟨.mk hparameters hlength hbody, hsound⟩⟩

theorem DeclaredFunctions.wellFormed {tables after : Tables} {nodes : List Node}
    (h : DeclaredFunctions tables nodes after) (htables : WellFormed tables.chain) :
    WellFormed after.chain := by
  induction h with
  | nil => exact htables
  | cons _ _ _ hdeclare _ ih =>
    obtain ⟨-, rfl⟩ := Tables.declareFunction_eq_ok_iff.mp hdeclare
    refine ih fun frame hframe => ?_
    rcases List.mem_cons.mp hframe with rfl | hmem
    -- the innermost frame has the signature in addition, under its own name
    · have hinner := htables _ List.mem_cons_self
      refine ⟨hinner.1, fun entry hentry => ?_⟩
      rcases List.mem_append.mp hentry with hold | hnew
      · exact hinner.2 entry hold
      · obtain rfl := List.mem_singleton.mp hnew
        rfl
    · exact htables frame (List.mem_cons_of_mem _ hmem)

/-- Signatures are declared in the innermost table, and nothing else is. -/
theorem DeclaredFunctions.eq {tables after : Tables} {nodes : List Node}
    (h : DeclaredFunctions tables nodes after) :
    after = { tables with inner := { tables.inner with funs := after.inner.funs } } := by
  induction h with
  | nil => rfl
  | cons _ _ _ hdeclare _ ih =>
    obtain ⟨-, rfl⟩ := Tables.declareFunction_eq_ok_iff.mp hdeclare
    exact ih

theorem DeclaredFunctions.wellNumbered {tables after : Tables} {nodes : List Node}
    (h : DeclaredFunctions tables nodes after) (htables : tables.WellNumbered) :
    after.WellNumbered := by
  rw [h.eq]
  exact htables

/-- What was declared stays declared. -/
theorem DeclaredFunctions.findFunction?_isSome {tables after : Tables} {nodes : List Node}
    (h : DeclaredFunctions tables nodes after) {name : String} {arity : Nat}
    (hfound : (tables.inner.findFunction? name arity).isSome = true) :
    (after.inner.findFunction? name arity).isSome = true := by
  induction h with
  | nil => exact hfound
  | cons _ _ _ hdeclare _ ih =>
    obtain ⟨-, rfl⟩ := Tables.declareFunction_eq_ok_iff.mp hdeclare
    apply ih
    simp only [Frame.findFunction?, List.lookup_append] at hfound ⊢
    rw [Option.isSome_or, hfound, Bool.true_or]

/-- The functions of a program can be found by name and arity. -/
theorem DeclaredFunctions.findFunction?_of_mem {tables after : Tables} {nodes : List Node}
    (h : DeclaredFunctions tables nodes after) {name : String} {parameters : List String}
    {types : List (Option String)} {resultType : Option String} {body : List Node}
    {signature : Option Signature}
    (hmem : .function name parameters types resultType body signature ∈ nodes) :
    (after.inner.findFunction? name parameters.length).isSome = true := by
  induction h with
  | nil => cases hmem
  | cons hname _ harity hdeclare hdeclared ih =>
    rcases List.mem_cons.mp hmem with heq | hrest
    · cases heq
      refine hdeclared.findFunction?_isSome ?_
      obtain ⟨-, rfl⟩ := Tables.declareFunction_eq_ok_iff.mp hdeclare
      rw [← hname, ← harity, Frame.findFunction?, List.lookup_append, Option.isSome_or]
      simp [Signature.arity]
    · exact ih hrest

/-! ### Bodies -/

/-- The bindings of the parameters of a function that has got its signature. -/
def bindingsOf (tables : Tables) : Node → List Binding
  | .function _ parameters _ _ _ (some f) =>
    match bodyTables tables f parameters with
    | .ok inside => (inside.inner.vars.drop 1).map Prod.snd
    | .error _ => []
  | _ => []

/-- The bindings of the parameters of several functions, whose bodies are checked one after
another. -/
def bindingsOfAll (tables : Tables) : List Node → List (List Binding)
  | [] => []
  | node :: rest =>
    bindingsOf tables node :: bindingsOfAll (checkFunction tables node).result.2 rest

/-- The bindings of the parameters of all functions of a program. -/
def parameterBindings : Node → List (List Binding)
  | .program globals functions =>
    let tables := (checkEach checkGlobal .initial globals).result.2
    let declared := (checkEach declareFunction tables functions).result
    bindingsOfAll declared.2 declared.1
  | _ => []

/-- The parameters are declared one after another. -/
theorem typedParameters_of_foldlM {parameters : List String}
    (hparameters : ∀ parameter ∈ parameters, parameter ≠ returnName) :
    ∀ {tables inside : Tables} {types : List Ty}, types.length = parameters.length →
      (parameters.zip types).foldlM (fun inside (name, ty) => do
        return (← Tables.declare inside name (some ty) true false).2) tables = .ok inside →
      ∃ bindings, TypedParameters tables parameters types bindings inside ∧
        inside.inner.vars = tables.inner.vars ++ parameters.zip bindings ∧
        bindings.length = parameters.length := by
  induction parameters with
  | nil =>
    intro tables inside types hlength h
    obtain rfl : types = [] := List.length_eq_zero_iff.mp hlength
    cases h
    exact ⟨[], .nil, by simp, rfl⟩
  | cons name names ih =>
    intro tables inside types hlength h
    obtain _ | ⟨ty, types⟩ := types
    · simp at hlength
    rw [List.zip_cons_cons, List.foldlM_cons] at h
    cases hdeclare : tables.declare name (some ty) true false with
    | error e =>
      simp only [hdeclare] at h
      cases h
    | ok result =>
      obtain ⟨binding, between⟩ := result
      simp only [hdeclare] at h
      -- the binding of the parameter stands in front of those of the others
      obtain ⟨bindings, htyped, hvars, hbindings⟩ :=
        ih (fun parameter hmem => hparameters parameter (List.mem_cons_of_mem _ hmem))
          (by simpa using hlength) h
      refine ⟨binding :: bindings, .cons (hparameters name List.mem_cons_self) hdeclare htyped, ?_,
        by simp [hbindings]⟩
      obtain ⟨-, -, rfl⟩ := Tables.declare_eq_ok_iff.mp hdeclare
      rw [hvars]
      simp

/-- The body of a function is well typed, with the bindings that the tables of the body have for the
parameters. -/
theorem typedBody_of_checkBlock {tables inside behind : Tables} (name : String)
    {parameters : List String} (types : List (Option String)) (resultType : Option String)
    {body results : List Node} {f : Signature} (htables : WellFormed tables.chain)
    (hparameters : ∀ parameter ∈ parameters, parameter ≠ returnName)
    (hlength : f.parameters.length = parameters.length) (hbody : SoundBlock body)
    (hinside : bodyTables tables f parameters = .ok inside)
    (hcheck : (checkBlock inside body).Yields (results, behind)) :
    TypedBody tables f parameters
      (bindingsOf tables (.function name parameters types resultType body (some f))) results
      behind := by
  have hbindings := hinside
  unfold bodyTables at hinside
  cases hresult : tables.enter.declare returnName (some f.result) false false with
  | error e =>
    rw [hresult] at hinside
    cases hinside
  | ok result =>
    obtain ⟨result, start⟩ := result
    rw [hresult] at hinside
    obtain ⟨bindings, htyped, hvars, hcount⟩ :=
      typedParameters_of_foldlM hparameters hlength hinside
    have hstart := hresult
    obtain ⟨-, -, rfl⟩ := Tables.declare_eq_ok_iff.mp hstart
    -- the frame of the body begins with the entry for the result, which is dropped
    have heq : bindingsOf tables (.function name parameters types resultType body (some f)) =
        bindings := by
      simp only [bindingsOf, hbindings, hvars]
      simp [Tables.enter, List.map_snd_zip, hcount]
    rw [heq]
    have hformed : WellFormed inside.chain :=
      htyped.grows.wellFormed (htables.enter.declare hresult)
    exact .mk hresult htyped (hbody _ _ _ hformed hcheck)

theorem typedFunctions_of_checkEach {nodes : List Node} :
    ∀ {tables after before declared : Tables} {results : List Node}, WellFormed tables.chain →
      (∀ node ∈ nodes, SoundFunction node) → DeclaredFunctions before nodes declared →
      (checkEach checkFunction tables nodes).Yields (results, after) →
        TypedFunctions tables results (bindingsOfAll tables nodes) after ∧
          DeclaredFunctions before results declared := by
  induction nodes with
  | nil =>
    intro tables after before declared results _ _ hdeclared h
    simp only [checkEach, yields_done, Prod.mk.injEq] at h
    obtain ⟨rfl, rfl⟩ := h
    exact ⟨.nil, hdeclared⟩
  | cons node rest ih =>
    intro tables after before declared results htables hnodes hdeclared h
    simp only [checkEach, yields_bind, yields_map, Prod.mk.injEq] at h
    obtain ⟨⟨result, between⟩, hresult, ⟨others, behind⟩, hothers, rfl, rfl⟩ := h
    have hnode := hnodes node List.mem_cons_self
    cases hdeclared with
    | @cons _ _ _ name parameters types resultType body f _ hname hjava harity hdeclare
        hdeclared =>
      cases hnode with
      | mk hparameters hlength hbody =>
        -- the tables behind this function are those before the next one
        have hafter := hresult
        simp only [checkFunction, yields_ensure, yields_map, Prod.mk.injEq] at hresult
        obtain ⟨inside, hinside, ⟨body, behind⟩, hcheck, rfl, rfl⟩ := hresult
        have htyped := typedBody_of_checkBlock name types resultType htables hparameters harity
          hbody hinside hcheck
        obtain ⟨hfunctions, hrest⟩ := ih (WellFormed.resume htables)
          (fun node hmem => hnodes node (List.mem_cons_of_mem _ hmem)) hdeclared hothers
        rw [bindingsOfAll, hafter.2]
        exact ⟨.cons hname htyped hfunctions, .cons hname hjava harity hdeclare hrest⟩

/-- An accepted program is well typed: first its global variables, then the signatures of its
functions, and then the bodies of the functions. -/
structure TypedProgram (globals functions : List Node) (bindings : List (List Binding)) : Prop where
  /-- The tables behind the global variables, the signatures and the bodies. -/
  exists_tables : ∃ behind declared after, TypedGlobals .initial globals behind ∧
    DeclaredFunctions behind functions declared ∧ TypedFunctions declared functions bindings after

theorem wellFormed_initial : WellFormed Tables.initial.chain := by
  intro frame hframe
  -- the frame of the program is empty, and the one around it has `print` only
  obtain rfl | rfl : frame = {} ∨ frame = Tables.builtins := by
    simpa [Tables.chain, Tables.initial] using hframe
  · exact ⟨fun entry hentry => absurd hentry List.not_mem_nil,
      fun entry hentry => absurd hentry List.not_mem_nil⟩
  · refine ⟨fun entry hentry => absurd hentry List.not_mem_nil, fun entry hentry => ?_⟩
    obtain rfl := List.mem_singleton.mp hentry
    rfl

/-- What the analysis makes of a program is well typed if it finds no fault. -/
theorem typed_of_checkProgram {tokens : List Token} {program result : Node} {after : Tables}
    (hprogram : Program tokens program) (htokens : AllLexed tokens)
    (hcheck : (checkProgram .initial program).Yields (result, after)) :
    ∃ globals functions, result = .program globals functions ∧
      TypedProgram globals functions (parameterBindings program) := by
  cases hprogram with
  | @mk _ parsed _ routines hglobals hfunctions =>
    simp only [checkProgram, yields_bind, yields_noted, yields_map, Prod.mk.injEq] at hcheck
    obtain ⟨⟨⟩, -, ⟨globals, behind⟩, hglobals', ⟨declared, signed⟩, hdeclared, ⟨functions, after⟩,
      hfunctions', rfl, rfl⟩ := hcheck
    have htypedGlobals :=
      typedGlobals_of_checkEach hglobals htokens.left wellFormed_initial hglobals'
    have hbehind := htypedGlobals.grows.wellFormed wellFormed_initial
    obtain ⟨hsigned, hsound⟩ := declaredFunctions_of_checkEach
      (soundFunction_of_many hfunctions htokens.right) hdeclared
    obtain ⟨htyped, hagain⟩ := typedFunctions_of_checkEach (hsigned.wellFormed hbehind) hsound
      hsigned hfunctions'
    -- the bindings were computed from what the first two rounds leave
    have hbindings : parameterBindings (.program parsed routines) =
        bindingsOfAll signed declared := by
      simp only [parameterBindings, hglobals'.2, hdeclared.2]
    rw [hbindings]
    exact ⟨globals, functions, rfl, ⟨behind, signed, after, htypedGlobals, hagain, htyped⟩⟩

end BlockScript

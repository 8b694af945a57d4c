import BlockScript.Proofs.Analysis.Program
import BlockScript.Proofs.Judgement.Statement
/-!
# The analysis decides which global variables are well typed

## Main definitions

* `Judgement.DecidesGlobal` — the check of a global variable decides whether it is well typed

## Main results

* `Judgement.decides_globals` — global variables in order
-/

namespace BlockScript

namespace Judgement

open Checked (Decides)
open BlockScript.Parser (AllLexed)

/-! ### Global variables -/

/-- The check of a global variable decides whether it is well typed. -/
def DecidesGlobal (node : Node) : Prop :=
  ∀ (Γ : Environment) (tables : Tables), Situated Γ tables → tables.inner.funs = [] →
    Decides (checkGlobal tables node) (∃ Γ', Global Unread Γ node Γ')
      fun outcome => ∃ Γ', Global Exact Γ outcome.1 Γ' ∧ outcome.1.erase = node ∧
        Situated Γ' outcome.2 ∧ outcome.2.inner.funs = []

section

variable {Γ : Environment} {tables : Tables} {name : String} {typeName : Option String}

theorem funs_of_declare {after : Tables} {type : Option Ty} {mutable isList : Bool}
    {binding : Binding} (h : tables.declare name type mutable isList = .ok (binding, after)) :
    after.inner.funs = tables.inner.funs := by
  obtain ⟨-, -, rfl⟩ := Tables.declare_eq_ok_iff.mp h
  rfl

/-- A list literal takes the declared type, or that of its first value, as the type of its
elements. -/
theorem decides_listLiteral {chain : StaticChain} {declared : Option Ty} {values : List Node}
    (hresolve : resolveTy typeName = .ok declared)
    (hvalues : ∀ value ∈ values, DecidesExpression Γ chain value) (hne : values ≠ []) :
    Decides (checkExpression chain (.listLiteral values declared))
      (∃ ty, Elements Unread Γ typeName values ty)
      fun result => ∃ ty results, result = .listLiteral results (some ty) ∧
        Elements Exact Γ typeName results ty ∧ Node.eraseAll results = values ∧
          declared.getD ty = ty := by
  rw [checkExpression]
  obtain _ | text := typeName
  · cases hresolve
    obtain ⟨first, rest, rfl⟩ := List.exists_cons_of_ne_nil hne
    refine (decides_values_inferred hvalues).map ?_
    rintro ⟨results, type⟩ ⟨ty, rfl, helements, herase⟩
    exact ⟨ty, results, rfl, helements, herase, rfl⟩
  · obtain ⟨ty, hname, rfl⟩ := resolveTy_some_eq_ok_iff.mp hresolve
    refine ((decides_values hvalues ty).weaken ?_).map ?_
    · rintro ⟨ty', h⟩
      cases h with
      | checked hname' hsuits => rwa [name_injective (hname.trans hname'.symm)]
    · rintro ⟨results, type⟩ ⟨rfl, hsuits, herase⟩
      exact ⟨ty, results, rfl, .checked hname hsuits, herase, rfl⟩

theorem decides_checkInitial_list {chain : StaticChain} {declared : Option Ty}
    {values : List Node} (hresolve : resolveTy typeName = .ok declared)
    (hvalues : ∀ value ∈ values, DecidesExpression Γ chain value) (hne : values ≠ []) :
    Decides (checkInitial chain declared (.listLiteral values declared))
      (∃ ty, Elements Unread Γ typeName values ty)
      fun outcome => ∃ ty results, outcome = (.listLiteral results (some ty), some ty) ∧
        Elements Exact Γ typeName results ty ∧ Node.eraseAll results = values := by
  simp only [checkInitial, Node.isNull, Bool.false_eq_true, if_false]
  refine Decides.bind (decides_listLiteral hresolve hvalues hne) (fun h => h) ?_
  rintro _ ⟨ty, results, rfl, helements, herase, hdeclared⟩
  obtain _ | ty' := declared
  · exact .done ⟨ty, results, rfl, helements, herase⟩
  · obtain rfl : ty' = ty := hdeclared
    exact decides_requireAccepted (fun _ => .done ⟨_, results, rfl, helements, herase⟩)
      fun _ => .refl

/-- A list. -/
theorem decidesGlobal_list {values : List Node} (hname : name ≠ returnName)
    (hvalues : ∀ value ∈ values, Decided value) (hne : values ≠ []) :
    DecidesGlobal (.global name true typeName (.listLiteral values none) true none) := by
  intro Γ tables htables hfuns
  have hparts : ∀ {Γ'},
      Global Unread Γ (.global name true typeName (.listLiteral values none) true none) Γ' →
        (∃ ty, Elements Unread Γ typeName values ty) ∧ name ∉ Γ.taken := by
    intro Γ' h
    cases h with
    | list h _ hfree => exact ⟨⟨_, h⟩, hfree⟩
  rw [checkGlobal, checkGlobalValue]
  simp only [Node.isNull, Bool.and_false, Bool.false_eq_true, if_false]
  refine .ensure (fun declared hdeclared => ?_) ?_
  · refine (decides_checkInitial_list hdeclared
      (fun value hvalue => hvalues value hvalue htables.toDescribes) hne).bind ?_ ?_
    · rintro ⟨Γ', h⟩
      exact (hparts h).1
    rintro _ ⟨ty, results, rfl, helements, herase⟩
    refine .ensure ?_ ?_
    · rintro ⟨binding, after⟩ hdeclare
      have hfree := (htables.declare_isOk_iff hname).mp ⟨_, hdeclare⟩
      refine .noted ⟨_, .list helements rfl hfree, ?_, htables.declare hdeclare hname,
        (funs_of_declare hdeclare).trans hfuns⟩
      rw [Node.erase, Node.erase, herase]
    · rintro ⟨Γ', h⟩
      exact (htables.declare_isOk_iff hname).mpr (hparts h).2
  · rintro ⟨Γ', h⟩
    obtain ⟨⟨ty, h⟩, -⟩ := hparts h
    cases h with
    | checked hname _ => exact ⟨_, resolveTy_some_eq_ok_iff.mpr ⟨_, hname, rfl⟩⟩
    | inferred _ _ => exact ⟨none, rfl⟩

/-- A global variable that is no list. -/
theorem decidesGlobal_value {mutable : Bool} {value : Node} (hname : name ≠ returnName)
    (hvalue : value.isNull = false → Decided value)
    (helement : ∀ declared, withElementTy declared value = value) :
    DecidesGlobal (.global name mutable typeName value false none) := by
  intro Γ tables htables hfuns
  have hparts : ∀ {Γ'}, Global Unread Γ (.global name mutable typeName value false none) Γ' →
      (∃ ty, Initial Unread Γ typeName value ty) ∧ name ∉ Γ.taken := by
    intro Γ' h
    cases h with
    | value h hfree => exact ⟨⟨_, h⟩, hfree⟩
  rw [checkGlobal, checkGlobalValue]
  split_ifs with hbare
  · refine .refuse ?_
    rintro ⟨Γ', h⟩
    obtain ⟨⟨ty, h⟩, -⟩ := hparts h
    cases h with
    | inferred h => simp [h.isNull_eq] at hbare
    | _ => simp at hbare
  refine .ensure (fun declared hdeclared => ?_) ?_
  · rw [helement]
    refine (decides_checkInitial hdeclared (by simpa using hbare)
      fun hnull => hvalue hnull htables.toDescribes).bind ?_ ?_
    · rintro ⟨Γ', h⟩
      exact (hparts h).1
    rintro ⟨result, type⟩ ⟨ty, rfl, hinitial, herase⟩
    refine .ensure ?_ ?_
    · rintro ⟨binding, after⟩ hdeclare
      have hfree := (htables.declare_isOk_iff hname).mp ⟨_, hdeclare⟩
      refine .noted ⟨_, .value hinitial hfree, ?_, htables.declare hdeclare hname,
        (funs_of_declare hdeclare).trans hfuns⟩
      rw [Node.erase, herase]
    · rintro ⟨Γ', h⟩
      exact (htables.declare_isOk_iff hname).mpr (hparts h).2
  · rintro ⟨Γ', h⟩
    obtain ⟨⟨ty, h⟩, -⟩ := hparts h
    exact h.exists_resolveTy

theorem decided_of_expressions {used : List Token} {nodes : List Node}
    (h : Grammar.Expressions used nodes) (hused : AllLexed used) : ∀ node ∈ nodes, Decided node :=
  fun node hnode _ _ hchain => decides_expressions hchain h hused node hnode

theorem ne_nil_of_expressions {used : List Token} {nodes : List Node}
    (h : Grammar.Expressions used nodes) : nodes ≠ [] := by
  cases h <;> simp

theorem decides_global {used : List Token} {node : Node} (h : Grammar.Global used node)
    (hused : AllLexed used) : DecidesGlobal node := by
  cases h with
  | list _ _ _ _ _ hvalues _ _ =>
    have hlexed := hused.tail.tail.right.tail.tail.left
    exact decidesGlobal_list (ne_returnName_of_lexed hused.tail.head)
      (decided_of_expressions hvalues hlexed) (ne_nil_of_expressions hvalues)
  | «mutable» _ _ _ hvalue _ =>
    exact decidesGlobal_value (ne_returnName_of_lexed hused.tail.head)
      (decided_of_initial hvalue hused.tail.tail.right.left) (withElementTy_initial hvalue)
  | constant _ _ _ _ hvalue _ =>
    exact decidesGlobal_value (ne_returnName_of_lexed hused.tail.head)
      (fun _ => decided_of_expression hvalue hused.tail.tail.right.tail.left)
      (withElementTy_expression hvalue)

/-- Global variables in order. -/
theorem decides_globals {used : List Token} {nodes : List Node}
    (h : Grammar.Many Grammar.Global used nodes) (hused : AllLexed used) :
    ∀ {Γ : Environment} {tables : Tables}, Situated Γ tables → tables.inner.funs = [] →
      Decides (checkEach checkGlobal tables nodes) (∃ Γ', Globals Unread Γ nodes Γ')
        fun outcome => ∃ Γ', Globals Exact Γ outcome.1 Γ' ∧ Node.eraseAll outcome.1 = nodes ∧
          Situated Γ' outcome.2 ∧ outcome.2.inner.funs = [] := by
  induction h with
  | nil =>
    intro Γ tables htables hfuns
    rw [checkEach]
    exact .done ⟨Γ, .nil, rfl, htables, hfuns⟩
  | cons h _ ih =>
    intro Γ tables htables hfuns
    rw [checkEach]
    refine Decides.bind (decides_global h hused.left Γ tables htables hfuns) ?_ ?_
    · rintro ⟨Γ'', _ | ⟨h, -⟩⟩
      exact ⟨_, h⟩
    rintro ⟨result, between⟩ ⟨Γ₁, hresult, herase, hbetween, hbetweenFuns⟩
    refine ((ih hused.right hbetween hbetweenFuns).weaken ?_).map ?_
    · rintro ⟨Γ'', _ | ⟨h, hrest⟩⟩
      rw [← herase] at h
      exact ⟨Γ'', h.unique hresult.erase ▸ hrest⟩
    rintro ⟨results, after⟩ ⟨Γ₂, hresults, hresultsErase, hafter⟩
    exact ⟨Γ₂, .cons hresult hresults, by rw [Node.eraseAll, herase, hresultsErase], hafter⟩

end

end Judgement

end BlockScript

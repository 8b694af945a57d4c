import BlockScript.Proofs.Judgement.Expression
/-!
# The analysis decides which statements are well typed

The check of a statement of the grammar finds no fault exactly if the rules allow the statement in
the environment that the tables make up; the tables behind it then make up the environment behind
it.

## Main definitions

* `Judgement.DecidesStatement`, `Judgement.DecidesBlock`, `Judgement.DecidesCases`

## Main results

* `Judgement.decides_checkInitial` — types and initial values of variables
* `Judgement.decides_statement`, `Judgement.decides_block` — statements
-/

namespace BlockScript

namespace Judgement

open Checked (Decides)
open BlockScript.Parser (AllLexed Tier)

/-- The type of an expression is decided in all tables. -/
def Decided (node : Node) : Prop :=
  ∀ {Γ : Environment} {chain : StaticChain}, Describes Γ chain → DecidesExpression Γ chain node

/-- The check of a statement decides whether it is well typed. -/
def DecidesStatement (node : Node) : Prop :=
  ∀ {Γ : Environment} {tables : Tables}, Situated Γ tables →
    Decides (checkStatement tables node) (∃ Γ', Statement Unread Γ node Γ')
      fun outcome => ∃ Γ', Statement Exact Γ outcome.1 Γ' ∧ outcome.1.erase = node ∧
        Situated Γ' outcome.2

/-- The same for the statements of a block. -/
def DecidesBlock (nodes : List Node) : Prop :=
  ∀ {Γ : Environment} {tables : Tables}, Situated Γ tables →
    Decides (checkBlock tables nodes) (Block Unread Γ nodes)
      fun outcome => Block Exact Γ outcome.1 ∧ Node.eraseAll outcome.1 = nodes

/-- The same for the cases of a switch over values of a type. -/
def DecidesCases (nodes : List Node) : Prop :=
  ∀ {Γ : Environment} {tables : Tables} (ty : Ty), Situated Γ tables →
    Decides (checkCases tables (some ty) nodes) (Cases Unread Γ ty nodes)
      fun outcome => Cases Exact Γ ty outcome.1 ∧ Node.eraseAll outcome.1 = nodes ∧
        Situated Γ outcome.2

/-! ### Variables -/

theorem named_eq_ok_iff {text : String} {ty : Ty} : Ty.named text = .ok ty ↔ ty.name = text := by
  unfold Ty.named
  constructor
  · intro h
    split at h
    next found hfound =>
      cases h
      have hname := List.find?_some hfound
      exact beq_iff_eq.mp hname
    next => cases h
  · rintro rfl
    rw [Ty.ofName?_name]

theorem resolveTy_some_eq_ok_iff {text : String} {declared : Option Ty} :
    resolveTy (some text) = .ok declared ↔ ∃ ty : Ty, ty.name = text ∧ declared = some ty := by
  simp only [← named_eq_ok_iff, resolveTy]
  cases Ty.named text <;> simp [Except.map, eq_comm]

section

variable {Γ : Environment} {chain : StaticChain} {typeName : Option String} {value : Node}

/-- The type of a variable can be resolved if the rules give it one. -/
theorem Initial.exists_resolveTy {ty : Ty} (h : Initial Unread Γ typeName value ty) :
    ∃ declared, resolveTy typeName = .ok declared := by
  cases h with
  | empty hname | checked hname _ => exact ⟨_, resolveTy_some_eq_ok_iff.mpr ⟨_, hname, rfl⟩⟩
  | inferred _ => exact ⟨none, rfl⟩

/-- A variable has a type if it has a declared one or an initial value. -/
theorem decides_checkInitial {declared : Option Ty} (hresolve : resolveTy typeName = .ok declared)
    (hsome : (typeName.isNone && value.isNull) = false)
    (hvalue : value.isNull = false → DecidesExpression Γ chain value) :
    Decides (checkInitial chain declared value) (∃ ty, Initial Unread Γ typeName value ty)
      fun outcome => ∃ ty, outcome.2 = some ty ∧ Initial Exact Γ typeName outcome.1 ty ∧
        outcome.1.erase = value := by
  unfold checkInitial
  split_ifs with hnull
  · obtain rfl : value = .null := by
      cases value <;> simp_all [Node.isNull]
    obtain _ | text := typeName
    · simp [hnull] at hsome
    obtain ⟨ty, hname, rfl⟩ := resolveTy_some_eq_ok_iff.mp hresolve
    exact .done ⟨ty, rfl, .empty hname, rfl⟩
  have hpart : (∃ ty, Initial Unread Γ typeName value ty) → ∃ ty, HasTy Unread Γ value ty := by
    rintro ⟨ty, _ | ⟨-, own, hown, -⟩ | hown⟩
    · exact absurd rfl hnull
    · exact ⟨own, hown⟩
    · exact ⟨ty, hown⟩
  refine Decides.bind (hvalue (by simpa using hnull)) hpart ?_
  rintro result ⟨own, hown, herase⟩
  obtain _ | text := typeName
  · cases hresolve
    exact .done ⟨own, hown.type?_eq, .inferred hown, herase⟩
  · obtain ⟨ty, hname, rfl⟩ := resolveTy_some_eq_ok_iff.mp hresolve
    rw [hown.type?_eq]
    refine decides_requireAccepted
      (fun hassignable => .done ⟨ty, rfl, .checked hname ⟨own, hown, hassignable⟩, herase⟩) ?_
    rintro ⟨ty', h⟩
    cases h with
    | empty _ => exact absurd rfl hnull
    | checked hname' h =>
      obtain ⟨own', hown', hassignable⟩ := h
      rwa [name_injective (hname.trans hname'.symm), ← eq_of_exact hown herase hown']

end

/-! ### Statements -/

section

variable {condition value : Node} {thenBody elseBody body nodes : List Node}

theorem decidesStatement_declaration {name : String} {typeName : Option String}
    (hname : name ≠ returnName) (hvalue : value.isNull = false → Decided value) :
    DecidesStatement (.declaration name typeName value none) := by
  intro Γ tables htables
  have hparts : ∀ {Γ'}, Statement Unread Γ (.declaration name typeName value none) Γ' →
      (∃ ty, Initial Unread Γ typeName value ty) ∧ name ∉ Γ.taken := by
    intro Γ' h
    cases h with
    | declaration h hfree => exact ⟨⟨_, h⟩, hfree⟩
  rw [checkStatement]
  split_ifs with hbare
  · refine .refuse ?_
    rintro ⟨Γ', h⟩
    obtain ⟨⟨ty, h⟩, -⟩ := hparts h
    cases h with
    | inferred h => simp [h.isNull_eq] at hbare
    | _ => simp at hbare
  refine .ensure (fun declared hdeclared => ?_) ?_
  · refine (decides_checkInitial hdeclared (by simpa using hbare)
      fun hnull => hvalue hnull htables.toDescribes).bind ?_ ?_
    · rintro ⟨Γ', h⟩
      exact (hparts h).1
    rintro ⟨result, type⟩ ⟨ty, rfl, hinitial, herase⟩
    refine .ensure ?_ ?_
    · rintro ⟨binding, after⟩ hdeclare
      have hfree := (htables.declare_isOk_iff hname).mp ⟨_, hdeclare⟩
      refine .done ⟨_, .declaration hinitial hfree, ?_, htables.declare hdeclare hname⟩
      rw [Node.erase, herase]
    · rintro ⟨Γ', h⟩
      exact (htables.declare_isOk_iff hname).mpr (hparts h).2
  · rintro ⟨Γ', h⟩
    obtain ⟨⟨ty, h⟩, -⟩ := hparts h
    exact h.exists_resolveTy

/-- What an analysed use of a variable is annotated with. -/
theorem exists_of_typed_access {chain : StaticChain} {place : Node} {ty : Ty}
    (h : Typed chain place ty) (hkind : place.kind? = some .access) :
    ∃ name offset binding, place = .access name offset (some ty) (some binding) ∧
      name ≠ returnName ∧ chain.findVariable? name = some binding := by
  cases h with
  | «variable» hname hfind _ _ => exact ⟨_, _, _, rfl, hname, hfind⟩
  | element hname _ hfind _ _ => exact ⟨_, _, _, rfl, hname, hfind⟩
  | _ => simp [Node.kind?] at hkind

/-- An assignment. What the check of the receiver leaves in the tree is the binding of its
variable. -/
theorem decidesStatement_assignment {receiver : Node} (hreceiver : Decided receiver)
    (hsound : ∀ {chain}, Tables.WellFormed chain → Sound chain receiver) (hvalue : Decided value) :
    DecidesStatement (.assignment receiver value) := by
  intro Γ tables htables
  rw [checkStatement]
  split_ifs with hkind
  · refine Decides.bind (hvalue htables.toDescribes) ?_ ?_
    · rintro ⟨Γ', h⟩
      cases h with
      | assignment _ _ _ h =>
        obtain ⟨own, hown, -⟩ := h
        exact ⟨own, hown⟩
    rintro result ⟨own, hown, herase⟩
    refine Decides.bind ((hreceiver htables.toDescribes).strengthen
      (hsound htables.wellFormed)) ?_ ?_
    · rintro ⟨Γ', h⟩
      cases h with
      | assignment h _ _ _ => exact ⟨_, h⟩
    rintro place ⟨⟨ty, hplace, hplaceErase⟩, ty', htyped⟩
    rw [← hplaceErase, Node.kind?_erase] at hkind
    obtain ⟨name, offset, binding, rfl, hname, hfind⟩ := exists_of_typed_access htyped hkind
    obtain ⟨v, hv, -, hmutable, -⟩ := htables.exists_variable hname hfind
    obtain rfl : ty' = ty := Option.some.inj hplace.type?_eq
    have hparts : ∀ {Γ'}, Statement Unread Γ (.assignment receiver value) Γ' →
        binding.mutable = true ∧ Assignable ty' own := by
      rw [← hplaceErase]
      intro Γ' h
      cases h with
      | assignment h hv' hmutable' hsuits =>
        obtain ⟨own', hown', hassignable⟩ := hsuits
        rw [hv] at hv'
        cases hv'
        rw [eq_of_exact hplace rfl h, eq_of_exact hown herase hown'] at hassignable
        exact ⟨hmutable.trans hmutable', hassignable⟩
    refine .ensure (fun _ hrequire => ?_) ?_
    · obtain ⟨_, _, _, _, heq, hbinding, haccepts⟩ := exists_of_requireReceiver hrequire
      cases heq
      rw [hown.type?_eq] at haccepts
      have hsuits : Suits Exact Γ ty' result := ⟨own, hown, assignable_iff.mpr haccepts⟩
      refine .done ⟨Γ, .assignment hplace hv (hmutable.symm.trans hbinding) hsuits, ?_, htables⟩
      rw [Node.erase, herase, hplaceErase]
    · rintro ⟨Γ', h⟩
      obtain ⟨hbinding, hassignable⟩ := hparts h
      refine ⟨(), ?_⟩
      rw [requireReceiver, if_pos hbinding, hown.type?_eq]
      exact requireAccepted_eq_ok_iff_assignable.mpr hassignable
  · refine .refuse ?_
    rintro ⟨Γ', h⟩
    cases h with
    | assignment _ _ _ _ => exact hkind rfl

theorem decidesStatement_branch (hcondition : Decided condition) (hthen : DecidesBlock thenBody)
    (helse : DecidesBlock elseBody) : DecidesStatement (.branch condition thenBody elseBody) := by
  intro Γ tables htables
  have hparts : ∀ {Γ'}, Statement Unread Γ (.branch condition thenBody elseBody) Γ' →
      HasTy Unread Γ condition .boolean ∧ thenBody ≠ [] ∧ Block Unread Γ.enter thenBody ∧
        Block Unread Γ.enter elseBody := by
    intro Γ' h
    cases h with
    | branch h hne hthen helse => exact ⟨h, hne, hthen, helse⟩
  rw [checkStatement]
  refine Decides.bind (hcondition htables.toDescribes) ?_ ?_
  · rintro ⟨Γ', h⟩
    exact ⟨_, (hparts h).1⟩
  rintro result ⟨own, hown, herase⟩
  rw [hown.type?_eq]
  refine decides_requireAccepted (fun hassignable => ?_) ?_
  · obtain rfl := assignable_boolean_iff.mp hassignable
    split_ifs with hempty
    · refine .refuse ?_
      rintro ⟨Γ', h⟩
      exact (hparts h).2.1 (List.isEmpty_iff.mp hempty)
    refine Decides.bind (hthen htables.enter) ?_ ?_
    · rintro ⟨Γ', h⟩
      exact (hparts h).2.2.1
    rintro ⟨thenResult, inThen⟩ ⟨hthenBody, hthenErase⟩
    refine ((helse (htables.resume inThen).enter).weaken ?_).map ?_
    · rintro ⟨Γ', h⟩
      exact (hparts h).2.2.2
    rintro ⟨elseResult, inElse⟩ ⟨helseBody, helseErase⟩
    refine ⟨Γ, .branch hown ?_ hthenBody helseBody, ?_, htables.resume inElse⟩
    · rintro rfl
      exact hempty (List.isEmpty_iff.mpr hthenErase.symm)
    · rw [Node.erase, herase, hthenErase, helseErase]
  · rintro ⟨Γ', h⟩
    rw [eq_of_exact hown herase (hparts h).1]
    exact .refl

theorem decidesStatement_switch (hcondition : Decided condition) (hcases : DecidesCases nodes) :
    DecidesStatement (.switch condition nodes) := by
  intro Γ tables htables
  rw [checkStatement]
  refine Decides.bind (hcondition htables.toDescribes) ?_ ?_
  · rintro ⟨Γ', h⟩
    cases h with
    | switch h _ => exact ⟨_, h⟩
  rintro result ⟨own, hown, herase⟩
  rw [hown.type?_eq]
  refine ((hcases own htables).weaken ?_).map ?_
  · rintro ⟨Γ', h⟩
    cases h with
    | switch h hcases => exact eq_of_exact hown herase h ▸ hcases
  rintro ⟨results, after⟩ ⟨hresults, hresultsErase, hafter⟩
  exact ⟨Γ, .switch hown hresults, by rw [Node.erase, herase, hresultsErase], hafter⟩

theorem decidesStatement_loop (hcondition : Decided condition) (hbody : DecidesBlock body) :
    DecidesStatement (.loop condition body) := by
  intro Γ tables htables
  have hparts : ∀ {Γ'}, Statement Unread Γ (.loop condition body) Γ' →
      HasTy Unread Γ condition .boolean ∧ Block Unread Γ.enter body := by
    intro Γ' h
    cases h with
    | loop h hbody => exact ⟨h, hbody⟩
  rw [checkStatement]
  refine Decides.bind (hcondition htables.toDescribes) ?_ ?_
  · rintro ⟨Γ', h⟩
    exact ⟨_, (hparts h).1⟩
  rintro result ⟨own, hown, herase⟩
  rw [hown.type?_eq]
  refine decides_requireAccepted (fun hassignable => ?_) ?_
  · obtain rfl := assignable_boolean_iff.mp hassignable
    refine ((hbody htables.enter).weaken ?_).map ?_
    · rintro ⟨Γ', h⟩
      exact (hparts h).2
    rintro ⟨results, inside⟩ ⟨hresults, hresultsErase⟩
    refine ⟨Γ, .loop hown hresults, ?_, htables.resume inside⟩
    rw [Node.erase, herase, hresultsErase]
  · rintro ⟨Γ', h⟩
    rw [eq_of_exact hown herase (hparts h).1]
    exact .refl

theorem decidesStatement_ret (hvalue : Decided value) : DecidesStatement (.ret value) := by
  intro Γ tables htables
  have hparts : ∀ {Γ'}, Statement Unread Γ (.ret value) Γ' →
      ∃ ty, Γ.result? = some ty ∧ Suits Unread Γ ty value := by
    intro Γ' h
    cases h with
    | ret hresult h => exact ⟨_, hresult, h⟩
  rw [checkStatement]
  refine Decides.bind (hvalue htables.toDescribes) ?_ ?_
  · rintro ⟨Γ', h⟩
    obtain ⟨ty, -, own, hown, -⟩ := hparts h
    exact ⟨own, hown⟩
  rintro result ⟨own, hown, herase⟩
  refine .ensure (fun type htype => ?_) ?_
  · obtain ⟨ty, hresult, rfl⟩ := htables.resultTyAt_eq_ok_iff.mp htype
    rw [hown.type?_eq]
    refine decides_requireAccepted (fun hassignable => ?_) ?_
    · exact .done ⟨Γ, .ret hresult ⟨own, hown, hassignable⟩, by rw [Node.erase, herase], htables⟩
    · rintro ⟨Γ', h⟩
      obtain ⟨ty', hresult', own', hown', hassignable⟩ := hparts h
      rw [hresult] at hresult'
      cases hresult'
      exact eq_of_exact hown herase hown' ▸ hassignable
  · rintro ⟨Γ', h⟩
    obtain ⟨ty, hresult, -⟩ := hparts h
    exact ⟨_, htables.resultTyAt_eq_ok_iff.mpr ⟨ty, hresult, rfl⟩⟩

theorem decidesStatement_discard (hvalue : Decided value) :
    DecidesStatement (.discard value) := by
  intro Γ tables htables
  rw [checkStatement]
  refine Decides.bind (hvalue htables.toDescribes) ?_ ?_
  · rintro ⟨Γ', h⟩
    cases h with
    | discard h => exact ⟨_, h⟩
  rintro result ⟨own, hown, herase⟩
  split_ifs with hkind
  · obtain ⟨name, arguments, note, callee, rfl⟩ : ∃ name arguments note callee,
        result = .call name arguments note callee := by
      cases result <;> simp_all [Node.kind?]
    exact .done ⟨Γ, .discard hown, by rw [Node.erase, herase], htables⟩
  · refine .refuse ?_
    rintro ⟨Γ', h⟩
    cases h with
    | discard h =>
      -- annotations do not change the kind of a node
      rw [← Node.kind?_erase, herase] at hkind
      exact hkind rfl

theorem decidesBlock_nil : DecidesBlock [] := by
  intro Γ tables _
  rw [checkBlock]
  exact .done ⟨.nil, rfl⟩

theorem decidesBlock_cons {node : Node} (hnode : DecidesStatement node)
    (hnodes : DecidesBlock nodes) : DecidesBlock (node :: nodes) := by
  intro Γ tables htables
  rw [checkBlock]
  refine Decides.bind (hnode htables) ?_ ?_
  · rintro (_ | ⟨h, -⟩)
    exact ⟨_, h⟩
  rintro ⟨result, between⟩ ⟨Γ', hresult, herase, hbetween⟩
  refine ((hnodes hbetween).weaken ?_).map ?_
  · rintro (_ | ⟨h, hrest⟩)
    -- the environment behind the statement is the one that its annotated form leads to
    rw [← herase] at h
    exact h.unique hresult.erase ▸ hrest
  rintro ⟨results, after⟩ ⟨hresults, hresultsErase⟩
  exact ⟨.cons hresult hresults, by rw [Node.eraseAll, herase, hresultsErase]⟩

/-- The default case, which must be the last one. -/
theorem decidesCases_default (hbody : DecidesBlock body) : DecidesCases [.case .null body] := by
  intro Γ tables ty htables
  have hvalue : Decides (Checked.done Node.null) True (· = .null) := .done rfl
  rw [checkCases]
  refine hvalue.bind (fun _ => trivial) ?_
  rintro _ rfl
  refine Decides.bind (hbody htables.enter) ?_ ?_
  · rintro (hbody | ⟨h, -, -⟩)
    · exact hbody
    · obtain ⟨own, hown, -⟩ := h
      exact absurd hown not_hasTy_null
  rintro ⟨results, inside⟩ ⟨hresults, herase⟩
  have hrest : Decides (checkCases (tables.resume inside) (some ty) []) True
      (· = ([], tables.resume inside)) := by
    rw [checkCases]
    exact .done rfl
  refine (hrest.weaken fun _ => trivial).map ?_
  rintro _ rfl
  exact ⟨.default hresults, by simp [Node.eraseAll, Node.erase, herase], htables.resume inside⟩

/-- A case with a value, which must not be the last one. -/
theorem decidesCases_cons (hvalue : Decided value) (hnull : value.isNull = false)
    (hbody : DecidesBlock body) (hne : nodes ≠ []) (hnodes : DecidesCases nodes) :
    DecidesCases (.case value body :: nodes) := by
  intro Γ tables ty htables
  have hparts : Cases Unread Γ ty (.case value body :: nodes) →
      Suits Unread Γ ty value ∧ Block Unread Γ.enter body ∧ Cases Unread Γ ty nodes := by
    intro h
    cases h with
    | default _ => cases hnull
    | valued h hbody hrest => exact ⟨h, hbody, hrest⟩
  have hempty : nodes.isEmpty = false := by simpa using hne
  rw [checkCases, hnull, hempty, if_neg Bool.false_ne_true, if_neg Bool.false_ne_true]
  have hchecked : Decides
      ((checkExpression tables.chain value).bind (fun value => value) fun value =>
        .ensure (requireAccepted (some ty) value.type?) value fun _ => .done value)
      (Suits Unread Γ ty value) fun result => Suits Exact Γ ty result ∧ result.erase = value := by
    refine Decides.bind (hvalue htables.toDescribes) ?_ ?_
    · rintro ⟨own, hown, -⟩
      exact ⟨own, hown⟩
    rintro result ⟨own, hown, herase⟩
    rw [hown.type?_eq]
    refine decides_requireAccepted
      (fun hassignable => .done ⟨⟨own, hown, hassignable⟩, herase⟩) ?_
    rintro ⟨own', hown', hassignable⟩
    exact eq_of_exact hown herase hown' ▸ hassignable
  refine hchecked.bind (fun h => (hparts h).1) ?_
  rintro result ⟨hsuits, herase⟩
  refine Decides.bind (hbody htables.enter) (fun h => (hparts h).2.1) ?_
  rintro ⟨bodyResult, inside⟩ ⟨hbodyResult, hbodyErase⟩
  refine ((hnodes ty (htables.resume inside)).weaken fun h => (hparts h).2.2).map ?_
  rintro ⟨results, after⟩ ⟨hresults, hresultsErase, hafter⟩
  refine ⟨.valued hsuits hbodyResult hresults, ?_, hafter⟩
  rw [Node.eraseAll, Node.erase, herase, hbodyErase, hresultsErase]

theorem decided_of_expression {tier : Tier} {used : List Token} {node : Node}
    (h : Grammar.Expression tier used node) (hused : AllLexed used) : Decided node :=
  fun hchain => decides_expression hchain h hused

theorem decided_of_initial {used : List Token} {value : Node} (h : Grammar.Initial used value)
    (hused : AllLexed used) (hnull : value.isNull = false) : Decided value := by
  cases h with
  | absent => cases hnull
  | present _ h => exact decided_of_expression h hused.tail

mutual

/-- The check of a statement of the grammar decides whether it is well typed. -/
theorem decides_statement : ∀ {used : List Token} {node : Node}, Grammar.Statement used node →
    AllLexed used → DecidesStatement node
  | _, _, .declaration _ _ _ hinitial _, hused =>
    decidesStatement_declaration (ne_returnName_of_lexed hused.tail.head)
      (decided_of_initial hinitial hused.tail.tail.right.left)
  | _, _, .switch _ hcondition hcases _ _ hbody _, hused =>
    decidesStatement_switch (decided_of_expression hcondition hused.tail.left)
      (decides_cases hcases hused.tail.right.left
        (decidesCases_default (decides_block hbody hused.tail.right.right.tail.right.left)))
  | _, _, .branch _ hcondition _ hthen _, hused =>
    decidesStatement_branch (decided_of_expression hcondition hused.tail.left)
      (decides_block hthen hused.tail.right.tail.left) decidesBlock_nil
  | _, _, .branchElse _ hcondition _ hthen _ helse _, hused =>
    decidesStatement_branch (decided_of_expression hcondition hused.tail.left)
      (decides_block hthen hused.tail.right.tail.left)
      (decides_block helse hused.tail.right.tail.right.tail.left)
  | _, _, .loop _ hcondition _ hbody _, hused =>
    decidesStatement_loop (decided_of_expression hcondition hused.tail.left)
      (decides_block hbody hused.tail.right.tail.left)
  | _, _, .ret _ hvalue _, hused =>
    decidesStatement_ret (decided_of_expression hvalue hused.tail.left)
  | _, _, .assignment hreceiver _ hvalue _, hused =>
    decidesStatement_assignment (decided_of_expression hreceiver hused.left)
      (fun hchain => sound_expression hchain hreceiver hused.left)
      (decided_of_expression hvalue hused.right.tail.left)
  | _, _, .discard hexpression _, hused =>
    decidesStatement_discard (decided_of_expression hexpression hused.left)

/-- The check of a block of the grammar decides whether it is well typed. -/
theorem decides_block : ∀ {used : List Token} {nodes : List Node}, Grammar.Block used nodes →
    AllLexed used → DecidesBlock nodes
  | _, _, .nil, _ => decidesBlock_nil
  | _, _, .cons h hrest, hused =>
    decidesBlock_cons (decides_statement h hused.left) (decides_block hrest hused.right)

/-- Cases with values, in front of a default case. -/
theorem decides_cases : ∀ {used : List Token} {nodes : List Node} {last : Node},
    Grammar.Cases used nodes → AllLexed used → DecidesCases [last] →
      DecidesCases (nodes ++ [last])
  | _, _, _, .nil, _, hlast => hlast
  | _, _, _, .cons _ h _ hbody hrest, hused, hlast =>
    decidesCases_cons (decided_of_expression h hused.tail.left)
      (isNull_of_expression h) (decides_block hbody hused.tail.right.tail.left) (by simp)
      (decides_cases hrest hused.tail.right.tail.right hlast)

end

end

end Judgement

end BlockScript

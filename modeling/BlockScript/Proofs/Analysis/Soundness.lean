import BlockScript.Proofs.Analysis.Growth
import BlockScript.Proofs.Parser.Reading
/-!
# Accepted trees are well typed

What the analysis makes of the tree of an expression or a statement is well typed if it finds no
fault. The trees are those of the grammar: other trees, such as a list literal in the middle of an
expression, can pass the analysis as well, but are none of ours.

## Main results

* `sound_expression` — expressions
* `sound_statement`, `sound_block` — statements
-/

namespace BlockScript

open Grammar
open Checked
open BlockScript.Parser (AllLexed Tier)
open Tables (WellFormed)

/-! ### Expressions -/

theorem Operator.exists_of_symbolTy {symbol : String} {left right : Option Ty} {ty : Ty}
    (h : symbolTy symbol left right = .ok ty) :
    ∃ op, Operator.ofText? symbol = some op ∧ op.resultTy left right = .ok ty := by
  unfold symbolTy at h
  split at h
  next op hop => exact ⟨op, hop, h⟩
  next => cases h

/-- The name that results stand under is no token. -/
theorem ne_returnName_of_lexed {token : Token} (htoken : token.Lexed) :
    token.text ≠ returnName := by
  intro htext
  -- as a token it would have to be read in one piece, but the lexer stops behind `<`
  have hlexed : Lexer.tokenAt? "<return>".toList = some (token.kind, 8) := by
    have h := htoken
    rw [Token.Lexed, htext] at h
    exact h
  have hless : Lexer.tokenAt? "<return>".toList = some (.operator, 1) := by decide
  rw [hless] at hlexed
  exact absurd (Prod.mk.inj (Option.some.inj hlexed)).2 (by decide)

/-- A tree is well typed if the analysis finds no fault in it. -/
def Sound (chain : StaticChain) (node : Node) : Prop :=
  ∀ result, (checkExpression chain node).Yields result → ∃ ty, Typed chain result ty

theorem typedArguments_of_sound {chain : StaticChain} {nodes : List Node}
    (hnodes : ∀ node ∈ nodes, Sound chain node) :
    ∀ {types : List Ty} {results : List Node}, nodes.length = types.length →
      (checkArguments chain nodes types).Yields results → TypedArguments chain results types := by
  induction nodes with
  | nil =>
    intro types results hlength h
    obtain rfl : types = [] := List.length_eq_zero_iff.mp hlength.symm
    simp only [checkArguments, yields_done] at h
    subst h
    exact .nil
  | cons node rest ih =>
    intro types results hlength h
    obtain _ | ⟨type, types⟩ := types
    · simp at hlength
    simp only [checkArguments, yields_bind, yields_ensure, yields_map] at h
    obtain ⟨argument, hargument, ⟨⟩, haccepts, others, hothers, rfl⟩ := h
    obtain ⟨own, htyped⟩ := hnodes node List.mem_cons_self argument hargument
    -- the annotation of the argument is its type
    rw [htyped.type?_eq, requireAccepted_eq_ok_iff] at haccepts
    refine .cons htyped haccepts (ih ?_ ?_ hothers)
    · exact fun node hnode => hnodes node (List.mem_cons_of_mem _ hnode)
    · simpa using hlength

/-- The values of a list are accepted by its element type, which stays what it is once there is
one. -/
theorem typedValues_of_sound {chain : StaticChain} {nodes : List Node}
    (hnodes : ∀ node ∈ nodes, Sound chain node) :
    ∀ {type result : Option Ty} {results : List Node},
      (checkValues chain nodes type).Yields (results, result) →
        (nodes ≠ [] → result.isSome = true) ∧ (∀ ty, type = some ty → result = some ty) ∧
          ∀ ty, result = some ty → TypedValues chain ty results := by
  induction nodes with
  | nil =>
    intro type result results h
    simp only [checkValues, yields_done, Prod.mk.injEq] at h
    obtain ⟨rfl, rfl⟩ := h
    exact ⟨fun hne => absurd rfl hne, fun ty h => h, fun ty _ => by simp [TypedValues]⟩
  | cons node rest ih =>
    intro type result results h
    simp only [checkValues, yields_bind, yields_ensure, yields_map] at h
    obtain ⟨value, hvalue, ⟨⟩, haccepts, ⟨others, last⟩, hothers, heq⟩ := h
    cases heq
    obtain ⟨own, htyped⟩ := hnodes node List.mem_cons_self value hvalue
    obtain ⟨-, hkept, hvalues⟩ :=
      ih (fun node hnode => hnodes node (List.mem_cons_of_mem _ hnode)) hothers
    rw [htyped.type?_eq, requireAccepted_eq_ok_iff] at haccepts
    rw [htyped.type?_eq] at hkept
    -- without a declared type, that of the first value is the element type from here on
    obtain ⟨ty, hty⟩ : ∃ ty, type.or (some own) = some ty := by
      cases type with
      | none => exact ⟨own, rfl⟩
      | some ty => exact ⟨ty, rfl⟩
    obtain rfl := hkept ty hty
    refine ⟨fun _ => rfl, ?_, ?_⟩
    · rintro ty' rfl
      exact hty.symm
    · rintro ty' hty'
      cases hty'
      intro value hmem
      rcases List.mem_cons.mp hmem with rfl | hmem
      · exact ⟨own, htyped, by rwa [hty] at haccepts⟩
      · exact hvalues ty rfl value hmem

section

variable {chain : StaticChain}

/-- A use of a variable, whose name must not be that of a list. -/
theorem sound_variable (hchain : WellFormed chain) {name : String} (hname : name ≠ returnName) :
    Sound chain (.access name .null none none) := by
  intro result h
  simp only [checkExpression, Node.isNull, if_true, yields_bind, yields_done, Bool.not_true,
    Bool.false_and, Bool.false_eq_true, if_false, yields_ensure, exists_eq_left',
    StaticChain.findVariable_eq_ok_iff, Bool.true_and] at h
  obtain ⟨binding, hbinding, h⟩ := h
  split at h
  · simp at h
  · rename_i hisList
    simp only [yields_done] at h
    subst h
    obtain ⟨ty, hty⟩ := hchain.exists_type hbinding
    rw [hty]
    exact ⟨ty, .variable hname hbinding (by simpa using hisList) hty⟩

/-- A use of an item of a list. -/
theorem sound_element (hchain : WellFormed chain) {name : String} {offset : Node}
    (hname : name ≠ returnName) (hoffset : Sound chain offset) :
    Sound chain (.access name offset none none) := by
  cases hnull : offset.isNull with
  | true =>
    obtain rfl : offset = .null := by
      cases offset <;> simp_all [Node.isNull]
    exact sound_variable hchain hname
  | false =>
    intro result h
    simp only [checkExpression, hnull, Bool.false_eq_true, if_false, yields_bind] at h
    obtain ⟨index, hindex, h⟩ := h
    obtain ⟨own, htyped⟩ := hoffset index hindex
    -- the offset is an integer, and then the name must be that of a list
    simp only [htyped.isNull_eq, htyped.type?_eq, Bool.not_false, Bool.true_and, Bool.false_and,
      Bool.false_eq_true, if_false] at h
    split at h
    · simp at h
    · rename_i hinteger
      obtain rfl : own = .integer := by simpa using hinteger
      simp only [yields_ensure, StaticChain.findVariable_eq_ok_iff] at h
      obtain ⟨binding, hbinding, h⟩ := h
      split at h
      · simp at h
      · rename_i hisList
        simp only [yields_done] at h
        subst h
        obtain ⟨ty, hty⟩ := hchain.exists_type hbinding
        rw [hty]
        exact ⟨ty, .element hname htyped hbinding (by simpa using hisList) hty⟩

mutual

theorem sound_expression (hchain : WellFormed chain) :
    ∀ {tier : Tier} {used : List Token} {node : Node}, Expression tier used node →
      AllLexed used → Sound chain node
  | _, _, _, .operand h, hused => sound_operand hchain h hused
  | _, _, _, .binary hleft _ _ hright, hused => by
    intro result h
    simp only [checkExpression, yields_bind, yields_ensure, yields_done] at h
    obtain ⟨left, hleft', right, hright', ty, hty, rfl⟩ := h
    obtain ⟨a, hleft⟩ := sound_expression hchain hleft hused.left left hleft'
    obtain ⟨b, hright⟩ := sound_operand hchain hright hused.right.tail right hright'
    rw [hleft.type?_eq, hright.type?_eq] at hty
    obtain ⟨op, hop, hresult⟩ := Operator.exists_of_symbolTy hty
    exact ⟨ty, .binary hop hleft hright hresult⟩

theorem sound_operand (hchain : WellFormed chain) :
    ∀ {tier : Tier} {used : List Token} {node : Node}, Operand tier used node →
      AllLexed used → Sound chain node
  | _, _, _, .tighter _ h, hused => sound_expression hchain h hused
  | _, _, _, .primary _ h, hused => sound_primary hchain h hused

theorem sound_primary (hchain : WellFormed chain) :
    ∀ {used : List Token} {node : Node}, Primary used node → AllLexed used → Sound chain node
  | _, _, .literal _, _ => by
    intro result h
    simp only [checkExpression, yields_done] at h
    subst h
    exact ⟨_, .literal⟩
  | _, _, .group _ hinner _, hused => by
    intro result h
    rw [checkExpression] at h
    split at h
    · simp only [yields_bind, yields_done] at h
      obtain ⟨inner, hinner', rfl⟩ := h
      obtain ⟨ty, htyped⟩ := sound_expression hchain hinner hused.tail.left inner hinner'
      rw [htyped.type?_eq]
      exact ⟨ty, .group htyped⟩
    · simp at h
  | _, _, .variable _, hused =>
    sound_variable hchain (ne_returnName_of_lexed hused.head)
  | _, _, .element _ _ hoffset _, hused =>
    sound_element hchain (ne_returnName_of_lexed hused.head)
      (sound_expression hchain hoffset hused.tail.tail.left)
  | _, _, .call hname _ harguments _, hused => by
    intro result h
    simp only [checkExpression, yields_ensure, yields_bind, yields_noted,
      StaticChain.findFunction_eq_ok_iff] at h
    obtain ⟨f, hf, arguments, hchecked, rfl⟩ := h
    -- the function was looked up with the number of arguments
    have harity := hchain.arity_eq hf
    have htyped := typedArguments_of_sound (sound_arguments hchain harguments hused.tail.tail.left)
      harity.symm hchecked
    refine ⟨f.result, .call ?_ htyped⟩
    rwa [htyped.length_eq, harity]

theorem sound_arguments (hchain : WellFormed chain) :
    ∀ {used : List Token} {nodes : List Node}, Arguments used nodes → AllLexed used →
      ∀ node ∈ nodes, Sound chain node
  | _, _, .none, _ => by simp
  | _, _, .some h, hused => sound_expressions hchain h hused

theorem sound_expressions (hchain : WellFormed chain) :
    ∀ {used : List Token} {nodes : List Node}, Expressions used nodes → AllLexed used →
      ∀ node ∈ nodes, Sound chain node
  | _, _, .one h, hused =>
    List.forall_mem_singleton.mpr (sound_expression hchain h hused)
  | _, _, .cons h _ hrest, hused =>
    List.forall_mem_cons.mpr ⟨sound_expression hchain h hused.left,
      sound_expressions hchain hrest hused.right.tail⟩

end

end

/-! ### Statements -/

theorem resolveTy_isSome {typeName : Option String} {declared : Option Ty}
    (h : resolveTy typeName = .ok declared) : declared.isSome = typeName.isSome := by
  cases typeName with
  | none =>
    cases h
    rfl
  | some name =>
    unfold resolveTy Ty.named at h
    cases hname : Ty.ofName? name with
    | none =>
      simp only [hname] at h
      cases h
    | some ty =>
      simp only [hname] at h
      cases h
      rfl

/-- A variable has a type if it has a declared one or an initial value. -/
theorem typedInitial_of_checkInitial {chain : StaticChain} {declared type : Option Ty}
    {value result : Node} (hvalue : value.isNull = false → Sound chain value)
    (hsome : declared.isSome = true ∨ value.isNull = false)
    (h : (checkInitial chain declared value).Yields (result, type)) :
    ∃ ty, type = some ty ∧ TypedInitial chain ty result := by
  unfold checkInitial at h
  cases hnull : value.isNull with
  | true =>
    obtain rfl : value = .null := by
      cases value <;> simp_all [Node.isNull]
    simp only [hnull, if_true, yields_done, Prod.mk.injEq] at h
    obtain ⟨rfl, rfl⟩ := h
    -- nothing but the declared type is left
    obtain ⟨ty, rfl⟩ := Option.isSome_iff_exists.mp (hsome.resolve_right (by simp [Node.isNull]))
    exact ⟨ty, rfl, .absent⟩
  | false =>
    simp only [hnull, Bool.false_eq_true, if_false, yields_bind] at h
    obtain ⟨checked, hchecked, h⟩ := h
    obtain ⟨own, htyped⟩ := hvalue hnull checked hchecked
    rw [htyped.type?_eq] at h
    cases declared with
    | none =>
      simp only [yields_done, Prod.mk.injEq] at h
      obtain ⟨rfl, rfl⟩ := h
      -- the type is that of the value
      exact ⟨own, rfl, .present htyped (by simp)⟩
    | some ty =>
      simp only [yields_ensure, yields_done, Prod.mk.injEq] at h
      obtain ⟨⟨⟩, haccepts, rfl, rfl⟩ := h
      exact ⟨ty, rfl, .present htyped (requireAccepted_eq_ok_iff.mp haccepts)⟩

theorem sound_initial {chain : StaticChain} (hchain : WellFormed chain) {used : List Token}
    {value : Node} (h : Initial used value) (hused : AllLexed used) (hnull : value.isNull = false) :
    Sound chain value := by
  cases h with
  | absent => cases hnull
  | present _ h => exact sound_expression hchain h hused.tail

theorem exists_of_requireReceiver {value receiver : Node}
    (h : requireReceiver value receiver = .ok ()) :
    ∃ name offset type binding, receiver = .access name offset type (some binding) ∧
      binding.mutable = true ∧ Ty.accepts type value.type? = true := by
  unfold requireReceiver at h
  split at h
  next name offset type binding =>
    split at h
    next hmutable =>
      exact ⟨name, offset, type, binding, rfl, hmutable, requireAccepted_eq_ok_iff.mp h⟩
    next => cases h
  next => cases h

/-- What the analysis makes of a statement in any tables is well typed if it finds no fault. -/
def SoundStatement (node : Node) : Prop :=
  ∀ tables after result, WellFormed tables.chain →
    (checkStatement tables node).Yields (result, after) → TypedStatement tables result after

/-- The same for the statements of a block. -/
def SoundBlock (nodes : List Node) : Prop :=
  ∀ tables after results, WellFormed tables.chain →
    (checkBlock tables nodes).Yields (results, after) → TypedBlock tables results after

/-- The same for the cases of a switch over a value of any type. -/
def SoundCases (nodes : List Node) : Prop :=
  ∀ tables condition after results, WellFormed tables.chain →
    (checkCases tables condition nodes).Yields (results, after) → TypedCases tables results after

section

variable {condition value : Node} {thenBody elseBody body nodes : List Node}

theorem soundStatement_declaration {name : String} {typeName : Option String}
    (hname : name ≠ returnName)
    (hvalue : ∀ {chain}, WellFormed chain → value.isNull = false → Sound chain value) :
    SoundStatement (.declaration name typeName value none) := by
  intro tables after result htables h
  simp only [checkStatement] at h
  split at h
  · simp at h
  · rename_i hbare
    simp only [yields_ensure, yields_bind, yields_done, Prod.mk.injEq] at h
    obtain ⟨declared, hdeclared, ⟨checked, type⟩, hinitial, ⟨binding, between⟩, hdeclare, rfl,
      rfl⟩ := h
    -- a declaration without a type and without a value was rejected
    have hsome : declared.isSome = true ∨ value.isNull = false := by
      rw [resolveTy_isSome hdeclared]
      cases typeName <;> simp_all
    obtain ⟨ty, rfl, htyped⟩ := typedInitial_of_checkInitial (hvalue htables) hsome hinitial
    exact .declaration hname htyped hdeclare

theorem soundStatement_assignment {receiver : Node}
    (hreceiver : ∀ {chain}, WellFormed chain → Sound chain receiver)
    (hvalue : ∀ {chain}, WellFormed chain → Sound chain value) :
    SoundStatement (.assignment receiver value) := by
  intro tables after result htables h
  simp only [checkStatement] at h
  split at h
  · simp only [yields_ensure, yields_bind, yields_done, Prod.mk.injEq] at h
    obtain ⟨checked, hchecked, place, hplace, ⟨⟩, hrequire, rfl, rfl⟩ := h
    obtain ⟨own, htyped⟩ := hvalue htables checked hchecked
    obtain ⟨name, offset, type, binding, rfl, hmutable, haccepts⟩ :=
      exists_of_requireReceiver hrequire
    obtain ⟨ty, haccess⟩ := hreceiver htables _ hplace
    obtain rfl : type = some ty := haccess.type?_eq
    rw [htyped.type?_eq] at haccepts
    exact .assignment htyped haccess hmutable haccepts
  · simp at h

theorem soundStatement_branch (hcondition : ∀ {chain}, WellFormed chain → Sound chain condition)
    (hthen : SoundBlock thenBody) (helse : SoundBlock elseBody) :
    SoundStatement (.branch condition thenBody elseBody) := by
  intro tables after result htables h
  simp only [checkStatement, yields_bind, yields_ensure] at h
  obtain ⟨checked, hchecked, ⟨⟩, haccepts, h⟩ := h
  split at h
  · simp at h
  · simp only [yields_bind, yields_map, Prod.mk.injEq] at h
    obtain ⟨⟨thenResult, inThen⟩, hthen', ⟨elseResult, inElse⟩, helse', rfl, rfl⟩ := h
    obtain ⟨own, htyped⟩ := hcondition htables checked hchecked
    rw [htyped.type?_eq, requireAccepted_eq_ok_iff] at haccepts
    obtain rfl := eq_boolean_of_accepts haccepts
    exact .branch htyped (hthen _ _ _ htables.enter hthen')
      (helse _ _ _ (WellFormed.enter htables) helse')

theorem soundStatement_switch (hcondition : ∀ {chain}, WellFormed chain → Sound chain condition)
    (hcases : SoundCases nodes) : SoundStatement (.switch condition nodes) := by
  intro tables after result htables h
  simp only [checkStatement, yields_bind, yields_map, Prod.mk.injEq] at h
  obtain ⟨checked, hchecked, ⟨results, behind⟩, hcases', rfl, rfl⟩ := h
  obtain ⟨own, htyped⟩ := hcondition htables checked hchecked
  exact .switch htyped (hcases _ _ _ _ htables hcases')

theorem soundStatement_loop (hcondition : ∀ {chain}, WellFormed chain → Sound chain condition)
    (hbody : SoundBlock body) : SoundStatement (.loop condition body) := by
  intro tables after result htables h
  simp only [checkStatement, yields_bind, yields_ensure, yields_map, Prod.mk.injEq] at h
  obtain ⟨checked, hchecked, ⟨⟩, haccepts, ⟨results, inside⟩, hbody', rfl, rfl⟩ := h
  obtain ⟨own, htyped⟩ := hcondition htables checked hchecked
  rw [htyped.type?_eq, requireAccepted_eq_ok_iff] at haccepts
  obtain rfl := eq_boolean_of_accepts haccepts
  exact .loop htyped (hbody _ _ _ htables.enter hbody')

theorem soundStatement_ret (hvalue : ∀ {chain}, WellFormed chain → Sound chain value) :
    SoundStatement (.ret value) := by
  intro tables after result htables h
  simp only [checkStatement, yields_bind, yields_ensure, yields_done, Prod.mk.injEq] at h
  obtain ⟨checked, hchecked, expected, hexpected, ⟨⟩, haccepts, rfl, rfl⟩ := h
  obtain ⟨own, htyped⟩ := hvalue htables checked hchecked
  unfold resultTyAt at hexpected
  split at hexpected
  next binding hbinding =>
    cases hexpected
    -- the type of the result stands in the tables like a variable
    obtain ⟨resultTy, hresultTy⟩ := htables.exists_type hbinding
    rw [htyped.type?_eq, hresultTy, requireAccepted_eq_ok_iff] at haccepts
    exact .ret htyped hbinding hresultTy haccepts
  next => cases hexpected

theorem soundStatement_discard (hvalue : ∀ {chain}, WellFormed chain → Sound chain value) :
    SoundStatement (.discard value) := by
  intro tables after result htables h
  simp only [checkStatement, yields_bind] at h
  obtain ⟨checked, hchecked, h⟩ := h
  split at h
  · simp only [yields_done, Prod.mk.injEq] at h
    obtain ⟨rfl, rfl⟩ := h
    obtain ⟨own, htyped⟩ := hvalue htables checked hchecked
    exact .discard htyped
  · simp at h

theorem soundBlock_nil : SoundBlock [] := by
  intro tables after results htables h
  simp only [checkBlock, yields_done, Prod.mk.injEq] at h
  obtain ⟨rfl, rfl⟩ := h
  exact .nil

theorem soundBlock_cons {node : Node} (hnode : SoundStatement node) (hnodes : SoundBlock nodes) :
    SoundBlock (node :: nodes) := by
  intro tables after results htables h
  simp only [checkBlock, yields_bind, yields_map, Prod.mk.injEq] at h
  obtain ⟨⟨result, between⟩, hresult, ⟨others, behind⟩, hothers, rfl, rfl⟩ := h
  have htyped := hnode _ _ _ htables hresult
  exact .cons htyped (hnodes _ _ _ (htyped.grows.wellFormed htables) hothers)

theorem soundCases_nil : SoundCases [] := by
  intro tables condition after results htables h
  simp only [checkCases, yields_done, Prod.mk.injEq] at h
  obtain ⟨rfl, rfl⟩ := h
  exact .nil

theorem soundCases_cons
    (hvalue : ∀ {chain}, WellFormed chain → value.isNull = false → Sound chain value)
    (hbody : SoundBlock body) (hnodes : SoundCases nodes) :
    SoundCases (.case value body :: nodes) := by
  intro tables condition after results htables h
  simp only [checkCases, yields_bind, yields_map, Prod.mk.injEq] at h
  obtain ⟨checked, hchecked, ⟨bodyResult, inside⟩, hbody', ⟨others, behind⟩, hothers, rfl, rfl⟩ := h
  -- the body comes first in the tables, whether or not the case has a value
  have htypedBody := hbody _ _ _ htables.enter hbody'
  have htypedRest := hnodes _ _ _ _ (WellFormed.resume htables) hothers
  cases hnull : value.isNull with
  | true =>
    simp only [hnull, if_true] at hchecked
    split at hchecked
    · rw [yields_done] at hchecked
      subst hchecked
      obtain rfl : value = .null := by
        cases value <;> simp_all [Node.isNull]
      exact .default htypedBody htypedRest
    · simp at hchecked
  | false =>
    simp only [hnull, Bool.false_eq_true, if_false] at hchecked
    split at hchecked
    · simp at hchecked
    · simp only [yields_bind, yields_ensure, yields_done] at hchecked
      obtain ⟨found, hfound, -, -, rfl⟩ := hchecked
      obtain ⟨own, htyped⟩ := hvalue htables hnull found hfound
      exact .valued htyped htypedBody htypedRest

end

mutual

/-- An accepted statement is well typed. -/
theorem sound_statement : ∀ {used : List Token} {node : Node}, Statement used node →
    AllLexed used → SoundStatement node
  | _, _, .declaration _ _ _ hvalue _, hused =>
    soundStatement_declaration (ne_returnName_of_lexed hused.tail.head)
      fun hchain => sound_initial hchain hvalue hused.tail.tail.right.left
  | _, _, .switch _ hcondition hcases _ _ hbody _, hused => by
    have hbody := sound_block hbody hused.tail.right.right.tail.right.left
    -- the default case is the last one, and the only one without a value
    have hdefault : SoundCases [.case .null _] :=
      soundCases_cons (fun _ hnull => by cases hnull) hbody soundCases_nil
    exact soundStatement_switch (fun hchain => sound_expression hchain hcondition hused.tail.left)
      (sound_cases hcases hused.tail.right.left hdefault)
  | _, _, .branch _ hcondition _ hthen _, hused =>
    soundStatement_branch (fun hchain => sound_expression hchain hcondition hused.tail.left)
      (sound_block hthen hused.tail.right.tail.left) soundBlock_nil
  | _, _, .branchElse _ hcondition _ hthen _ helse _, hused =>
    soundStatement_branch (fun hchain => sound_expression hchain hcondition hused.tail.left)
      (sound_block hthen hused.tail.right.tail.left)
      (sound_block helse hused.tail.right.tail.right.tail.left)
  | _, _, .loop _ hcondition _ hbody _, hused =>
    soundStatement_loop (fun hchain => sound_expression hchain hcondition hused.tail.left)
      (sound_block hbody hused.tail.right.tail.left)
  | _, _, .ret _ hvalue _, hused =>
    soundStatement_ret fun hchain => sound_expression hchain hvalue hused.tail.left
  | _, _, .assignment hreceiver _ hvalue _, hused =>
    soundStatement_assignment (fun hchain => sound_expression hchain hreceiver hused.left)
      fun hchain => sound_expression hchain hvalue hused.right.tail.left
  | _, _, .discard hexpression _, hused =>
    soundStatement_discard fun hchain => sound_expression hchain hexpression hused.left

/-- An accepted block is well typed. -/
theorem sound_block : ∀ {used : List Token} {nodes : List Node}, Block used nodes →
    AllLexed used → SoundBlock nodes
  | _, _, .nil, _ => soundBlock_nil
  | _, _, .cons h hrest, hused =>
    soundBlock_cons (sound_statement h hused.left) (sound_block hrest hused.right)

theorem sound_cases : ∀ {used : List Token} {nodes : List Node}, Cases used nodes →
    AllLexed used → ∀ {default : Node}, SoundCases [default] → SoundCases (nodes ++ [default])
  | _, _, .nil, _, _, hdefault => hdefault
  | _, _, .cons _ hvalue _ hbody hrest, hused, _, hdefault =>
    soundCases_cons (fun hchain _ => sound_expression hchain hvalue hused.tail.left)
      (sound_block hbody hused.tail.right.tail.left)
      (sound_cases hrest hused.tail.right.tail.right hdefault)

end

end BlockScript

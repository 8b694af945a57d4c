import BlockScript.Proofs.Analysis.Soundness
import BlockScript.Proofs.Judgement.Decides
/-!
# The analysis decides the types of expressions

The check of an expression of the grammar finds no fault exactly if the expression has a type, and
then it annotates the expression, and all its parts, with their types.

## Main definitions

* `Judgement.Annotated` — an expression and what it is with its annotations

## Main results

* `Judgement.decides_expression` — expressions
* `Judgement.decides_arguments`, `Judgement.decides_values` — arguments and values of lists
-/

namespace BlockScript

namespace Judgement

open Checked (Decides)
open BlockScript.Parser (AllLexed Tier)

/-! ### Annotated expressions -/

/-- An expression with its annotations: each part has its type. -/
def Annotated (Γ : Environment) (node result : Node) : Prop :=
  ∃ ty, HasTy Exact Γ result ty ∧ result.erase = node

/-- The check of an expression decides whether it has a type, and annotates it. -/
def DecidesExpression (Γ : Environment) (chain : StaticChain) (node : Node) : Prop :=
  Decides (checkExpression chain node) (∃ ty, HasTy Unread Γ node ty) (Annotated Γ node)

section

variable {Γ : Environment} {chain : StaticChain} {node result : Node} {ty : Ty}

theorem HasTy.type?_eq (h : HasTy Exact Γ node ty) : node.type? = some ty := by
  cases h <;> assumption

theorem HasTy.isNull_eq {Marks : Option Ty → Ty → Prop} (h : HasTy Marks Γ node ty) :
    node.isNull = false := by
  cases h <;> rfl

/-- The type of an expression can be read off its annotated form. -/
theorem hasTy_of_exact (h : HasTy Exact Γ result ty) (herase : result.erase = node) :
    HasTy Unread Γ node ty :=
  herase ▸ h.erase

theorem eq_of_exact {Marks : Option Ty → Ty → Prop} {ty' : Ty} (h : HasTy Exact Γ result ty)
    (herase : result.erase = node) (h' : HasTy Marks Γ node ty') : ty' = ty :=
  h'.unique (hasTy_of_exact h herase)

end

/-! ### Arguments and values -/

section

variable {Γ : Environment} {chain : StaticChain}

/-- The requirement that a value can be stored where a type is expected. -/
theorem decides_requireAccepted {β : Type} {statement : Prop} {goal : β → Prop} {ty own : Ty}
    {soFar : β} {next : Unit → Checked β}
    (hnext : Assignable ty own → Decides (next ()) statement goal)
    (hneeded : statement → Assignable ty own) :
    Decides (.ensure (requireAccepted (some ty) (some own)) soFar next) statement goal :=
  .ensure (fun _ h => hnext (requireAccepted_eq_ok_iff_assignable.mp h))
    fun h => ⟨(), requireAccepted_eq_ok_iff_assignable.mpr (hneeded h)⟩

theorem decides_arguments {nodes : List Node}
    (hnodes : ∀ node ∈ nodes, DecidesExpression Γ chain node) :
    ∀ {types : List Ty}, nodes.length = types.length →
      Decides (checkArguments chain nodes types) (Fit Unread Γ nodes types)
        fun results => Fit Exact Γ results types ∧ Node.eraseAll results = nodes := by
  induction nodes with
  | nil =>
    intro types hlength
    obtain rfl : types = [] := List.length_eq_zero_iff.mp hlength.symm
    change Decides (Checked.done []) _ _
    exact .done ⟨.nil, rfl⟩
  | cons node rest ih =>
    intro types hlength
    obtain _ | ⟨ty, types⟩ := types
    · simp at hlength
    have hrest := ih (fun node hnode => hnodes node (List.mem_cons_of_mem _ hnode))
      (Nat.succ.inj hlength)
    rw [checkArguments]
    refine (hnodes node List.mem_cons_self).bind ?_ ?_
    · rintro (_ | ⟨h, -, -⟩)
      exact ⟨_, h⟩
    rintro argument ⟨own, hown, herase⟩
    rw [hown.type?_eq]
    refine decides_requireAccepted (fun hassignable => ?_) ?_
    · refine (hrest.weaken ?_).map ?_
      · rintro (_ | ⟨-, -, h⟩)
        exact h
      · rintro others ⟨hfit, herases⟩
        exact ⟨.cons hown hassignable hfit, by rw [Node.eraseAll, herase, herases]⟩
    · rintro (_ | ⟨h, hassignable, -⟩)
      exact eq_of_exact hown herase h ▸ hassignable

/-- Values of a list whose elements have a known type. -/
theorem decides_values {nodes : List Node}
    (hnodes : ∀ node ∈ nodes, DecidesExpression Γ chain node) (ty : Ty) :
    Decides (checkValues chain nodes (some ty)) (∀ node ∈ nodes, Suits Unread Γ ty node)
      fun outcome => outcome.2 = some ty ∧ (∀ value ∈ outcome.1, Suits Exact Γ ty value) ∧
        Node.eraseAll outcome.1 = nodes := by
  induction nodes with
  | nil =>
    rw [checkValues]
    exact .done ⟨rfl, by simp, rfl⟩
  | cons node rest ih =>
    have hrest := ih fun node hnode => hnodes node (List.mem_cons_of_mem _ hnode)
    rw [checkValues]
    refine (hnodes node List.mem_cons_self).bind ?_ ?_
    · intro h
      obtain ⟨own, hown, -⟩ := h node List.mem_cons_self
      exact ⟨own, hown⟩
    rintro value ⟨own, hown, herase⟩
    rw [hown.type?_eq]
    refine decides_requireAccepted (fun hassignable => ?_) ?_
    · refine (hrest.weaken ?_).map ?_
      · exact fun h node hnode => h node (List.mem_cons_of_mem _ hnode)
      · rintro ⟨others, type⟩ ⟨htype, hsuits, herases⟩
        refine ⟨htype, List.forall_mem_cons.mpr ⟨⟨own, hown, hassignable⟩, hsuits⟩, ?_⟩
        rw [Node.eraseAll, herase, herases]
    · intro h
      obtain ⟨own', hown', hassignable⟩ := h node List.mem_cons_self
      exact eq_of_exact hown herase hown' ▸ hassignable

/-- Values of a list whose elements have the type of the first one. -/
theorem decides_values_inferred {first : Node} {rest : List Node}
    (hnodes : ∀ node ∈ first :: rest, DecidesExpression Γ chain node) :
    Decides (checkValues chain (first :: rest) none)
      (∃ ty, Elements Unread Γ none (first :: rest) ty)
      fun outcome => ∃ ty, outcome.2 = some ty ∧ Elements Exact Γ none outcome.1 ty ∧
        Node.eraseAll outcome.1 = first :: rest := by
  obtain ⟨hfirst, hrest⟩ := List.forall_mem_cons.mp hnodes
  rw [checkValues]
  refine hfirst.bind ?_ ?_
  · rintro ⟨ty, _ | ⟨h, -⟩⟩
    exact ⟨ty, h⟩
  rintro value ⟨own, hown, herase⟩
  rw [hown.type?_eq]
  -- the type of the first value suits the value itself
  refine decides_requireAccepted (fun _ => ?_) fun _ => .refl
  refine ((decides_values hrest own).weaken ?_).map ?_
  · rintro ⟨ty, _ | ⟨h, hsuits⟩⟩
    exact eq_of_exact hown herase h ▸ hsuits
  · rintro ⟨others, type⟩ ⟨rfl, hsuits, herases⟩
    exact ⟨own, rfl, .inferred hown hsuits, by rw [Node.eraseAll, herase, herases]⟩

end

/-! ### Expressions -/

section

variable {Γ : Environment} {chain : StaticChain}

theorem decidesExpression_group {inner : Node} (hinner : DecidesExpression Γ chain inner) :
    DecidesExpression Γ chain (.group inner none) := by
  rw [DecidesExpression, checkExpression]
  split_ifs with hkind
  · refine hinner.bind ?_ ?_
    · rintro ⟨ty, h⟩
      cases h with
      | group h _ => exact ⟨ty, h⟩
    rintro result ⟨ty, hresult, herase⟩
    refine .done ⟨ty, ?_, by rw [Node.erase, herase]⟩
    -- annotations do not change the kind of a node
    rw [← herase, Node.kind?_erase] at hkind
    obtain ⟨symbol, left, right, own, rfl⟩ : ∃ symbol left right own,
        result = .binary symbol left right own := by
      cases result <;> simp_all [Node.kind?]
    exact .group hresult hresult.type?_eq
  · refine .refuse ?_
    rintro ⟨ty, ⟨-, -⟩⟩
    exact hkind rfl

theorem decidesExpression_binary {symbol : String} {left right : Node}
    (hleft : DecidesExpression Γ chain left) (hright : DecidesExpression Γ chain right) :
    DecidesExpression Γ chain (.binary symbol left right none) := by
  have hparts : ∀ {ty}, HasTy Unread Γ (.binary symbol left right none) ty →
      ∃ op a b, symbol = op.text ∧ HasTy Unread Γ left a ∧ HasTy Unread Γ right b ∧
        OperationTy op a b ty := by
    intro ty h
    cases h with
    | binary hleft hright hty _ => exact ⟨_, _, _, rfl, hleft, hright, hty⟩
  rw [DecidesExpression, checkExpression]
  refine hleft.bind ?_ ?_
  · rintro ⟨ty, h⟩
    obtain ⟨op, a, b, -, ha, -, -⟩ := hparts h
    exact ⟨a, ha⟩
  rintro left' ⟨a, ha, hlefterase⟩
  refine hright.bind ?_ ?_
  · rintro ⟨ty, h⟩
    obtain ⟨op, a, b, -, -, hb, -⟩ := hparts h
    exact ⟨b, hb⟩
  rintro right' ⟨b, hb, hrighterase⟩
  rw [ha.type?_eq, hb.type?_eq]
  refine .ensure (fun ty hty => ?_) ?_
  · obtain ⟨op, hop, hresult⟩ := Operator.exists_of_symbolTy hty
    obtain rfl := Operator.text_of_ofText? hop
    refine .done ⟨ty, .binary ha hb (operationTy_of_resultTy hresult) rfl, ?_⟩
    rw [Node.erase, hlefterase, hrighterase]
  · rintro ⟨ty, h⟩
    obtain ⟨op, a', b', rfl, ha', hb', hty⟩ := hparts h
    rw [eq_of_exact ha hlefterase ha', eq_of_exact hb hrighterase hb'] at hty
    refine ⟨ty, ?_⟩
    rw [symbolTy, Operator.ofText?_text]
    exact resultTy_of_operationTy hty

/-- A use of a variable, whose name must not be that of a list. -/
theorem decidesExpression_variable (hchain : Describes Γ chain) {name : String}
    (hname : name ≠ returnName) :
    DecidesExpression Γ chain (.access name .null none none) := by
  have hvariable : ∀ {ty}, HasTy Unread Γ (.access name .null none none) ty →
      ∃ v, Γ.var? name = some v ∧ v.isList = false := by
    intro ty h
    cases h with
    | access hv hlist _ => exact ⟨_, hv, hlist⟩
    | element h _ _ _ => exact absurd h not_hasTy_null
  have hoffset : Decides (Checked.done Node.null) True (· = .null) := .done rfl
  rw [DecidesExpression, checkExpression]
  refine hoffset.bind (fun _ => trivial) ?_
  rintro _ rfl
  simp only [Node.isNull, Bool.not_true, Bool.false_and, Bool.false_eq_true, if_false,
    Bool.true_and]
  refine .ensure (fun binding hbinding => ?_) ?_
  · obtain ⟨v, hv, htype, -, hisList⟩ :=
      hchain.exists_variable hname (StaticChain.findVariable_eq_ok_iff.mp hbinding)
    split_ifs with hlist
    · refine .refuse ?_
      rintro ⟨ty, h⟩
      obtain ⟨v', hv', hlist'⟩ := hvariable h
      rw [hv] at hv'
      cases hv'
      rw [hisList, hlist'] at hlist
      cases hlist
    · rw [hisList, Bool.not_eq_true] at hlist
      exact .done ⟨v.type, .access hv hlist htype, rfl⟩
  · rintro ⟨ty, h⟩
    obtain ⟨v, hv, -⟩ := hvariable h
    obtain ⟨binding, hbinding, -⟩ := hchain.exists_binding hname hv
    exact ⟨binding, StaticChain.findVariable_eq_ok_iff.mpr hbinding⟩

/-- A use of an item of a list, whose offset must be an integer. -/
theorem decidesExpression_element (hchain : Describes Γ chain) {name : String} {offset : Node}
    (hname : name ≠ returnName) (hnull : offset.isNull = false)
    (hoffset : DecidesExpression Γ chain offset) :
    DecidesExpression Γ chain (.access name offset none none) := by
  have helement : ∀ {ty}, HasTy Unread Γ (.access name offset none none) ty →
      HasTy Unread Γ offset .integer ∧ ∃ v, Γ.var? name = some v ∧ v.isList = true := by
    intro ty h
    cases h with
    | access _ _ _ => cases hnull
    | element h hv hlist _ => exact ⟨h, _, hv, hlist⟩
  rw [DecidesExpression, checkExpression, hnull, if_neg Bool.false_ne_true]
  refine Decides.bind hoffset ?_ ?_
  · rintro ⟨ty, h⟩
    exact ⟨_, (helement h).1⟩
  rintro index ⟨own, hown, herase⟩
  simp only [hown.isNull_eq, hown.type?_eq, Bool.not_false, Bool.true_and, Bool.false_and,
    Bool.false_eq_true, if_false]
  split_ifs with hinteger
  · refine .refuse ?_
    rintro ⟨ty, h⟩
    obtain rfl := eq_of_exact hown herase (helement h).1
    simp at hinteger
  obtain rfl : own = .integer := by simpa using hinteger
  refine .ensure (fun binding hbinding => ?_) ?_
  · obtain ⟨v, hv, htype, -, hisList⟩ :=
      hchain.exists_variable hname (StaticChain.findVariable_eq_ok_iff.mp hbinding)
    split_ifs with hlist
    · refine .refuse ?_
      rintro ⟨ty, h⟩
      obtain ⟨-, v', hv', hlist'⟩ := helement h
      rw [hv] at hv'
      cases hv'
      rw [hisList, hlist'] at hlist
      cases hlist
    · rw [hisList, Bool.not_eq_true, Bool.not_eq_false'] at hlist
      exact .done ⟨v.type, .element hown hv hlist htype, by rw [Node.erase, herase]⟩
  · rintro ⟨ty, h⟩
    obtain ⟨-, v, hv, -⟩ := helement h
    obtain ⟨binding, hbinding, -⟩ := hchain.exists_binding hname hv
    exact ⟨binding, StaticChain.findVariable_eq_ok_iff.mpr hbinding⟩

theorem decidesExpression_call (hchain : Describes Γ chain) {name : String} {arguments : List Node}
    (harguments : ∀ node ∈ arguments, DecidesExpression Γ chain node) :
    DecidesExpression Γ chain (.call name arguments none none) := by
  have hcall : ∀ {ty}, HasTy Unread Γ (.call name arguments none none) ty →
      ∃ f, Γ.function? name arguments.length = some f ∧ Fit Unread Γ arguments f.parameters := by
    intro ty h
    cases h with
    | call hf hfit _ => exact ⟨_, hf, hfit⟩
  rw [DecidesExpression, checkExpression]
  refine .ensure (fun signature hsignature => ?_) ?_
  · have hfound := StaticChain.findFunction_eq_ok_iff.mp hsignature
    obtain ⟨f, hf, hparameters, hresult⟩ := hchain.exists_function hfound
    -- the function was looked up with the number of arguments
    have hlength := hchain.wellFormed.arity_eq hfound
    refine Decides.bind (decides_arguments harguments hlength.symm) ?_ ?_
    · rintro ⟨ty, h⟩
      obtain ⟨f', hf', hfit⟩ := hcall h
      rw [hf] at hf'
      cases hf'
      exact hparameters ▸ hfit
    rintro results ⟨hfit, rfl⟩
    refine .noted ⟨f.result, ?_, rfl⟩
    rw [hparameters] at hfit
    rw [hresult]
    refine .call ?_ hfit rfl
    rwa [Node.eraseAll_eq_map, List.length_map] at hf
  · rintro ⟨ty, h⟩
    obtain ⟨f, hf, -⟩ := hcall h
    obtain ⟨signature, hsignature, -⟩ := hchain.exists_signature hf
    exact ⟨signature, StaticChain.findFunction_eq_ok_iff.mpr hsignature⟩

mutual

theorem isNull_of_expression : ∀ {tier : Tier} {used : List Token} {node : Node},
    Grammar.Expression tier used node → node.isNull = false
  | _, _, _, .operand h => isNull_of_operand h
  | _, _, _, .binary _ _ _ _ => rfl

theorem isNull_of_operand : ∀ {tier : Tier} {used : List Token} {node : Node},
    Grammar.Operand tier used node → node.isNull = false
  | _, _, _, .tighter _ h => isNull_of_expression h
  | _, _, _, .primary _ h => by cases h <;> rfl

end

mutual

/-- The check of an expression of the grammar decides whether it has a type. -/
theorem decides_expression (hchain : Describes Γ chain) :
    ∀ {tier : Tier} {used : List Token} {node : Node}, Grammar.Expression tier used node →
      AllLexed used → DecidesExpression Γ chain node
  | _, _, _, .operand h, hused => decides_operand hchain h hused
  | _, _, _, .binary hleft _ _ hright, hused =>
    decidesExpression_binary (decides_expression hchain hleft hused.left)
      (decides_operand hchain hright hused.right.tail)

theorem decides_operand (hchain : Describes Γ chain) :
    ∀ {tier : Tier} {used : List Token} {node : Node}, Grammar.Operand tier used node →
      AllLexed used → DecidesExpression Γ chain node
  | _, _, _, .tighter _ h, hused => decides_expression hchain h hused
  | _, _, _, .primary _ h, hused => decides_primary hchain h hused

theorem decides_primary (hchain : Describes Γ chain) :
    ∀ {used : List Token} {node : Node}, Grammar.Primary used node → AllLexed used →
      DecidesExpression Γ chain node
  | _, _, .literal _, _ => by
    rw [DecidesExpression, checkExpression]
    exact .done ⟨_, .literal rfl, rfl⟩
  | _, _, .group _ hinner _, hused =>
    decidesExpression_group (decides_expression hchain hinner hused.tail.left)
  | _, _, .variable _, hused =>
    decidesExpression_variable hchain (ne_returnName_of_lexed hused.head)
  | _, _, .element _ _ hoffset _, hused =>
    decidesExpression_element hchain (ne_returnName_of_lexed hused.head)
      (isNull_of_expression hoffset)
      (decides_expression hchain hoffset hused.tail.tail.left)
  | _, _, .call _ _ harguments _, hused =>
    decidesExpression_call hchain (decides_callArguments hchain harguments hused.tail.tail.left)

theorem decides_callArguments (hchain : Describes Γ chain) :
    ∀ {used : List Token} {nodes : List Node}, Grammar.Arguments used nodes → AllLexed used →
      ∀ node ∈ nodes, DecidesExpression Γ chain node
  | _, _, .none, _ => by simp
  | _, _, .some h, hused => decides_expressions hchain h hused

theorem decides_expressions (hchain : Describes Γ chain) :
    ∀ {used : List Token} {nodes : List Node}, Grammar.Expressions used nodes → AllLexed used →
      ∀ node ∈ nodes, DecidesExpression Γ chain node
  | _, _, .one h, hused =>
    List.forall_mem_singleton.mpr (decides_expression hchain h hused)
  | _, _, .cons h _ hrest, hused =>
    List.forall_mem_cons.mpr ⟨decides_expression hchain h hused.left,
      decides_expressions hchain hrest hused.right.tail⟩

end

end

end Judgement

end BlockScript

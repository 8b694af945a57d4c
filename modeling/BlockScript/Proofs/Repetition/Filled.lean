import BlockScript.Proofs.Analysis.Resolved
import BlockScript.Proofs.Repetition.Program
/-!
# Trees without empty lists

In tables whose variables have types, every expression gets a type, unless it is an empty list. So a
list literal that has a first value, and had no type of its own, gets the type of that value, and
the check leaves a settled tree behind.

## Main definitions

* `Checked.Finds` — what a check leaves behind, and what it has found if there is no fault

## Main results

* `settled_expression`, `settled_statement`, `settled_program` — what checks make of fresh trees
  without empty lists
-/

namespace BlockScript

open Node (IsSettled AllSettled IsFilled AllFilled FirstFits eraseAll firstFits_none
  isSettled_erase allSettled_eraseAll everyListIn_iff)
open Tables (WellFormed)
open Checked (bind_of_some bind_eq_after)

namespace Checked

variable {α β γ : Type} {P Q : α → Prop} {P' Q' : β → Prop}

/-- A check leaves something with the property `P` behind, which has the property `Q` as well if the
check finds no fault. -/
def Finds (x : Checked α) (P Q : α → Prop) : Prop :=
  x.Leaves P ∧ (x.fault = none → Q x.result)

namespace Finds

/-- A check that stops has found nothing. -/
theorem of_fault {x : Checked α} {fault : AnalysisFault} (h : x.Leaves P)
    (hfault : x.fault = some fault) : x.Finds P Q :=
  ⟨h, fun hnone => absurd (hfault.symm.trans hnone) (Option.some_ne_none fault)⟩

theorem bind {x : Checked α} {soFar : α → β} {next : α → Checked β} (h : x.Finds P Q)
    (hsoFar : ∀ a, P a → P' (soFar a)) (hnext : ∀ a, P a → Q a → (next a).Finds P' Q') :
    (x.bind soFar next).Finds P' Q' := by
  cases hfault : x.fault with
  | some fault =>
    rw [bind_of_some hfault]
    exact of_fault (hsoFar _ h.1) hfault
  | none =>
    rw [bind_eq_after hfault]
    exact hnext x.result h.1 (h.2 hfault)

theorem ensure {requirement : Except AnalysisError γ} {soFar : β} {next : γ → Checked β}
    (hsoFar : P' soFar) (hnext : ∀ c, requirement = .ok c → (next c).Finds P' Q') :
    (Checked.ensure requirement soFar next).Finds P' Q' := by
  cases requirement with
  | ok c => exact hnext c rfl
  | error e => exact of_fault hsoFar rfl

/-- What is asked of a check that is followed by others. -/
theorem leaves {x : Checked α} {soFar : α → β} {next : α → Checked β} (h : x.Finds P Q)
    (hsoFar : ∀ a, P a → P' (soFar a)) (hnext : ∀ a, P a → Q a → (next a).Leaves P') :
    (x.bind soFar next).Leaves P' := by
  have hbind : (x.bind soFar next).Finds P' fun _ => True :=
    h.bind hsoFar fun a ha hQ => ⟨hnext a ha hQ, fun _ => trivial⟩
  exact hbind.1

end Finds

end Checked

open Checked (Finds)

/-! ### Expressions -/

section

variable {chain : StaticChain}

/-- A fresh expression is settled by its check, and gets a type. -/
def SettlesExpression (chain : StaticChain) (node : Node) : Prop :=
  (checkExpression chain node.erase).Finds IsSettled fun result => result.type?.isSome = true

theorem settled_group {inner : Node} {type : Option Ty} (h : SettlesExpression chain inner) :
    SettlesExpression chain (.group inner type) := by
  unfold SettlesExpression
  rw [Node.erase, checkExpression]
  split
  · exact h.bind (fun _ hinner => hinner) fun inner hinner htype => ⟨hinner, fun _ => htype⟩
  · exact .of_fault (isSettled_erase inner) rfl

theorem settled_binary {symbol : String} {left right : Node} {type : Option Ty}
    (hleft : SettlesExpression chain left) (hright : SettlesExpression chain right) :
    SettlesExpression chain (.binary symbol left right type) := by
  unfold SettlesExpression
  rw [Node.erase, checkExpression]
  refine hleft.bind (fun _ h => ⟨h, isSettled_erase right⟩) fun left' hleft' _ => ?_
  refine hright.bind (fun _ h => ⟨hleft', h⟩) fun right' hright' _ => ?_
  exact .ensure ⟨hleft', hright'⟩ fun ty _ => ⟨⟨hleft', hright'⟩, fun _ => rfl⟩

theorem settled_access (hchain : WellFormed chain) {name : String} {offset : Node}
    {type : Option Ty} {binding : Option Binding} (h : SettlesExpression chain offset) :
    SettlesExpression chain (.access name offset type binding) := by
  have hoffset : (checkOffset chain offset.erase).Finds IsSettled fun _ => True := by
    unfold checkOffset
    split
    · exact ⟨isSettled_erase offset, fun _ => trivial⟩
    · exact ⟨h.1, fun _ => trivial⟩
  unfold SettlesExpression
  rw [Node.erase, checkExpression_access]
  refine hoffset.bind (fun _ h => h) fun offset' hoffset' _ => ?_
  unfold checkFound
  split
  · exact .of_fault hoffset' rfl
  refine .ensure hoffset' fun found hfound => ?_
  split
  · exact .of_fault hoffset' rfl
  split
  · exact .of_fault hoffset' rfl
  obtain ⟨ty, hty⟩ := hchain.exists_type (StaticChain.findVariable_eq_ok_iff.mp hfound)
  exact ⟨hoffset', fun _ => Option.isSome_iff_exists.mpr ⟨ty, hty⟩⟩

theorem settled_arguments {nodes : List Node}
    (hnodes : ∀ node ∈ nodes, SettlesExpression chain node) : ∀ types : List Ty,
      (checkArguments chain (eraseAll nodes) types).Leaves AllSettled := by
  induction nodes with
  | nil => exact fun _ => trivial
  | cons node rest ih =>
    obtain ⟨hnode, hrest⟩ := List.forall_mem_cons.mp hnodes
    intro types
    rw [eraseAll]
    cases types with
    | nil => exact ⟨isSettled_erase node, allSettled_eraseAll rest⟩
    | cons type types =>
      rw [checkArguments]
      refine hnode.1.bind (fun _ h => ⟨h, allSettled_eraseAll rest⟩) fun node' hnode' => ?_
      refine .ensure ⟨hnode', allSettled_eraseAll rest⟩ fun _ => ?_
      exact .map (ih hrest types) fun _ h => ⟨hnode', h⟩

theorem settled_call {name : String} {arguments : List Node} {type : Option Ty}
    {callee : Option Signature} (h : ∀ argument ∈ arguments, SettlesExpression chain argument) :
    SettlesExpression chain (.call name arguments type callee) := by
  unfold SettlesExpression
  rw [Node.erase, checkExpression]
  refine .ensure (allSettled_eraseAll arguments) fun found _ => ?_
  have harguments : (checkArguments chain (eraseAll arguments) found.parameters).Finds AllSettled
      fun _ => True := ⟨settled_arguments h found.parameters, fun _ => trivial⟩
  exact harguments.bind (fun _ h => h) fun _ h _ => ⟨h, fun _ => rfl⟩

theorem settled_values {nodes : List Node}
    (hnodes : ∀ node ∈ nodes, SettlesExpression chain node) : ∀ type : Option Ty,
      (checkValues chain (eraseAll nodes) type).Leaves fun outcome => AllSettled outcome.1 := by
  induction nodes with
  | nil => exact fun _ => trivial
  | cons node rest ih =>
    obtain ⟨hnode, hrest⟩ := List.forall_mem_cons.mp hnodes
    intro type
    rw [eraseAll, checkValues]
    refine hnode.1.bind (fun _ h => ⟨h, allSettled_eraseAll rest⟩) fun node' hnode' => ?_
    refine .ensure ⟨hnode', allSettled_eraseAll rest⟩ fun _ => ?_
    exact .map (ih hrest _) fun _ h => ⟨hnode', h⟩

/-- A list that has a first value gets the type of that value. -/
theorem settled_firstValue {first : Node} {rest : List Node}
    (hfirst : SettlesExpression chain first) (hrest : ∀ node ∈ rest, SettlesExpression chain node) :
    (checkValues chain (eraseAll (first :: rest)) none).Finds
      (fun outcome => FirstFits outcome.2 outcome.1 ∧ AllSettled outcome.1)
      fun outcome => outcome.2.isSome = true := by
  rw [eraseAll, checkValues]
  refine hfirst.bind (fun _ h => ⟨firstFits_none _, h, allSettled_eraseAll rest⟩) ?_
  intro first' hfirst' htype
  obtain ⟨ty, hty⟩ := Option.isSome_iff_exists.mp htype
  -- from here on the type stays, whatever comes behind the first value
  have hfits : ∀ rest, FirstFits (some ty) (first' :: rest) := by
    rintro rest _ ⟨⟩ _ ⟨⟩
    rw [hty]
    exact Ty.accepts_self _
  simp only [Option.none_or, hty]
  refine .ensure ⟨hfits _, hfirst', allSettled_eraseAll rest⟩ fun _ _ => ?_
  have hkept : (checkValues chain (eraseAll rest) (some ty)).result.2 = some ty :=
    leaves_values_of_some ty (eraseAll rest)
  refine ⟨⟨?_, hfirst', settled_values hrest (some ty)⟩, fun _ => ?_⟩
  · change FirstFits (checkValues chain (eraseAll rest) (some ty)).result.2 _
    rw [hkept]
    exact hfits _
  · change (checkValues chain (eraseAll rest) (some ty)).result.2.isSome = true
    rw [hkept]
    rfl

theorem settled_listLiteral {values : List Node} {type : Option Ty} (hne : values ≠ [])
    (hvalues : ∀ value ∈ values, SettlesExpression chain value) :
    SettlesExpression chain (.listLiteral values type) := by
  obtain ⟨first, rest, rfl⟩ := List.exists_cons_of_ne_nil hne
  obtain ⟨hfirst, hrest⟩ := List.forall_mem_cons.mp hvalues
  unfold SettlesExpression
  rw [Node.erase, checkExpression]
  exact settled_firstValue hfirst hrest

end

mutual

theorem settled_expression {chain : StaticChain} (hchain : WellFormed chain) :
    ∀ node : Node, node.IsFilled → SettlesExpression chain node
  | .literal .., _ => ⟨trivial, fun _ => rfl⟩
  | .group inner _, h => settled_group (settled_expression hchain inner h)
  | .binary _ left right _, h =>
    settled_binary (settled_expression hchain left h.1) (settled_expression hchain right h.2)
  | .access _ offset _ _, h => settled_access hchain (settled_expression hchain offset h)
  | .call _ arguments _ _, h =>
    settled_call (settled_expressions hchain arguments h)
  | .listLiteral values _, h => settled_listLiteral h.1 (settled_expressions hchain values h.2)
  | .null, _ | .discard .., _ | .declaration .., _ | .assignment .., _ | .branch .., _ | .case .., _
  | .switch .., _ | .loop .., _ | .ret .., _ | .global .., _ | .function .., _ | .program .., _ =>
    .of_fault (isSettled_erase _) rfl

theorem settled_expressions {chain : StaticChain} (hchain : WellFormed chain) :
    ∀ nodes : List Node, AllFilled nodes → ∀ node ∈ nodes, SettlesExpression chain node
  | [], _ => List.forall_mem_nil _
  | node :: rest, h =>
    List.forall_mem_cons.mpr
      ⟨settled_expression hchain node h.1, settled_expressions hchain rest h.2⟩

end

/-! ### Statements -/

theorem settled_initial {chain : StaticChain} (hchain : WellFormed chain) {declared : Option Ty}
    {value : Node} (hvalue : value.IsFilled)
    (htyped : declared = none → value.erase.isNull = false) :
    (checkInitial chain declared value.erase).Finds (fun outcome => outcome.1.IsSettled)
      fun outcome => outcome.2.isSome = true := by
  unfold checkInitial
  split
  next hnull =>
    refine ⟨isSettled_erase value, fun _ => Option.ne_none_iff_isSome.mp fun hnone => ?_⟩
    exact absurd hnull (by rw [htyped hnone]; exact Bool.false_ne_true)
  next hnull =>
    refine (settled_expression hchain value hvalue).bind (fun _ h => h) fun value' h htype => ?_
    cases declared with
    | none => exact ⟨h, fun _ => htype⟩
    | some ty => exact .ensure h fun _ _ => ⟨h, fun _ => rfl⟩

/-- A variable without a declared type has an initial value. -/
theorem isNull_of_not_bare {typeName : Option String} {value : Node} {declared : Option Ty}
    (hbare : ¬(typeName.isNone && value.isNull) = true)
    (hdeclared : resolveTy typeName = .ok declared) (hnone : declared = none) :
    value.isNull = false := by
  subst hnone
  have hname : typeName.isNone = true :=
    Option.isSome_eq_false_iff.mp (resolveTy_isSome hdeclared).symm
  simpa [hname] using hbare

/-- A fresh statement is settled by its check, which declares variables with types only. -/
def SettlesStatement (node : Node) : Prop :=
  ∀ tables : Tables, WellFormed tables.chain → (checkStatement tables node.erase).Leaves
    fun outcome => outcome.1.IsSettled ∧ WellFormed outcome.2.chain

/-- The same for the statements of a block. -/
def SettlesBlock (nodes : List Node) : Prop :=
  ∀ tables : Tables, WellFormed tables.chain → (checkBlock tables (eraseAll nodes)).Leaves
    fun outcome => AllSettled outcome.1 ∧ WellFormed outcome.2.chain

/-- The same for the cases of a switch. -/
def SettlesCases (nodes : List Node) : Prop :=
  ∀ tables condition, WellFormed tables.chain →
    (checkCases tables condition (eraseAll nodes)).Leaves
      fun outcome => AllSettled outcome.1 ∧ WellFormed outcome.2.chain

theorem settled_discard {expression : Node} (h : expression.IsFilled) :
    SettlesStatement (.discard expression) := by
  intro tables htables
  rw [Node.erase, checkStatement]
  refine (settled_expression htables expression h).leaves (fun _ h => ⟨h, htables⟩) fun _ h _ => ?_
  exact .ite ⟨h, htables⟩ ⟨h, htables⟩

theorem settled_declaration {name : String} {typeName : Option String} {value : Node}
    {binding : Option Binding} (h : value.IsFilled) :
    SettlesStatement (.declaration name typeName value binding) := by
  intro tables htables
  rw [Node.erase, checkStatement]
  split
  · exact ⟨isSettled_erase value, htables⟩
  next hbare =>
    refine Checked.leaves_ensure ⟨isSettled_erase value, htables⟩ fun declared hdeclared => ?_
    refine (settled_initial htables h (isNull_of_not_bare hbare hdeclared)).leaves
      (fun _ h => ⟨h, htables⟩) ?_
    rintro ⟨value', type⟩ hvalue' htype
    obtain ⟨ty, rfl⟩ := Option.isSome_iff_exists.mp htype
    exact Checked.leaves_ensure ⟨hvalue', htables⟩ fun _ hdeclare =>
      ⟨hvalue', htables.declare hdeclare⟩

theorem settled_assignment {receiver value : Node} (hreceiver : receiver.IsFilled)
    (hvalue : value.IsFilled) : SettlesStatement (.assignment receiver value) := by
  intro tables htables
  rw [Node.erase, checkStatement]
  refine .ite ?_ ⟨⟨isSettled_erase receiver, isSettled_erase value⟩, htables⟩
  refine (settled_expression htables value hvalue).leaves
    (fun _ h => ⟨⟨isSettled_erase receiver, h⟩, htables⟩) fun value' hvalue' _ => ?_
  refine (settled_expression htables receiver hreceiver).leaves
    (fun _ h => ⟨⟨h, hvalue'⟩, htables⟩) fun receiver' hreceiver' _ => ?_
  exact .ensure ⟨⟨hreceiver', hvalue'⟩, htables⟩ fun _ => ⟨⟨hreceiver', hvalue'⟩, htables⟩

theorem settled_ret {value : Node} (h : value.IsFilled) : SettlesStatement (.ret value) := by
  intro tables htables
  rw [Node.erase, checkStatement]
  refine (settled_expression htables value h).leaves (fun _ h => ⟨h, htables⟩) fun _ h _ => ?_
  exact .ensure ⟨h, htables⟩ fun _ => .ensure ⟨h, htables⟩ fun _ => ⟨h, htables⟩

theorem settled_branch {condition : Node} {thenBody elseBody : List Node}
    (hcondition : condition.IsFilled) (hthen : SettlesBlock thenBody)
    (helse : SettlesBlock elseBody) :
    SettlesStatement (.branch condition thenBody elseBody) := by
  intro tables htables
  have hbodies : AllSettled (eraseAll thenBody) ∧ AllSettled (eraseAll elseBody) :=
    ⟨allSettled_eraseAll thenBody, allSettled_eraseAll elseBody⟩
  rw [Node.erase, checkStatement]
  refine (settled_expression htables condition hcondition).leaves
    (fun _ h => ⟨⟨h, hbodies⟩, htables⟩) fun condition' h _ => ?_
  refine .ensure ⟨⟨h, hbodies⟩, htables⟩ fun _ => .ite ⟨⟨h, hbodies⟩, htables⟩ ?_
  refine (hthen _ htables.enter).bind (fun _ hthen' => ⟨⟨h, hthen'.1, hbodies.2⟩, htables⟩) ?_
  rintro ⟨thenBody', inside⟩ ⟨hthen', -⟩
  exact .map (helse (tables.resume inside).enter htables.resume.enter)
    fun _ helse' => ⟨⟨h, hthen', helse'.1⟩, htables⟩

theorem settled_switch {condition : Node} {cases : List Node} (hcondition : condition.IsFilled)
    (hcases : SettlesCases cases) : SettlesStatement (.switch condition cases) := by
  intro tables htables
  rw [Node.erase, checkStatement]
  refine (settled_expression htables condition hcondition).leaves
    (fun _ h => ⟨⟨h, allSettled_eraseAll cases⟩, htables⟩) fun condition' h _ => ?_
  exact .map (hcases tables _ htables) fun _ hcases' => ⟨⟨h, hcases'.1⟩, hcases'.2⟩

theorem settled_loop {condition : Node} {body : List Node} (hcondition : condition.IsFilled)
    (hbody : SettlesBlock body) : SettlesStatement (.loop condition body) := by
  intro tables htables
  rw [Node.erase, checkStatement]
  refine (settled_expression htables condition hcondition).leaves
    (fun _ h => ⟨⟨h, allSettled_eraseAll body⟩, htables⟩) fun condition' h _ => ?_
  refine .ensure ⟨⟨h, allSettled_eraseAll body⟩, htables⟩ fun _ => ?_
  exact .map (hbody tables.enter htables.enter) fun _ hbody' => ⟨⟨h, hbody'.1⟩, htables⟩

theorem settled_blockCons {statement : Node} {rest : List Node}
    (hstatement : SettlesStatement statement) (hrest : SettlesBlock rest) :
    SettlesBlock (statement :: rest) := by
  intro tables htables
  rw [eraseAll, checkBlock]
  refine (hstatement tables htables).bind
    (fun _ h => ⟨⟨h.1, allSettled_eraseAll rest⟩, h.2⟩) ?_
  rintro ⟨statement', between⟩ ⟨h, hbetween⟩
  exact .map (hrest between hbetween) fun _ hrest' => ⟨⟨h, hrest'.1⟩, hrest'.2⟩

theorem settled_case {value : Node} {body rest : List Node} (hvalue : value.IsFilled)
    (hbody : SettlesBlock body) (hrest : SettlesCases rest) :
    SettlesCases (.case value body :: rest) := by
  intro tables condition htables
  have hbehind : AllSettled (eraseAll body) ∧ AllSettled (eraseAll rest) :=
    ⟨allSettled_eraseAll body, allSettled_eraseAll rest⟩
  rw [eraseAll, Node.erase, checkCases]
  refine Checked.Leaves.bind (P := IsSettled) ?_
    (fun _ h => ⟨⟨⟨h, hbehind.1⟩, hbehind.2⟩, htables⟩) fun value' h => ?_
  · have hfresh := isSettled_erase value
    refine .ite (.ite hfresh hfresh) (.ite hfresh ?_)
    refine (settled_expression htables value hvalue).leaves (fun _ h => h) fun _ h _ => ?_
    exact .ensure h fun _ => h
  · refine (hbody tables.enter htables.enter).bind
      (fun _ hbody' => ⟨⟨⟨h, hbody'.1⟩, hbehind.2⟩, htables⟩) ?_
    rintro ⟨body', inside⟩ ⟨hbody', -⟩
    exact .map (hrest (tables.resume inside) condition htables.resume)
      fun _ hrest' => ⟨⟨⟨h, hbody'⟩, hrest'.1⟩, hrest'.2⟩

theorem Node.isSettled_withValue {node value : Node} (hnode : node.IsSettled)
    (hvalue : value.IsSettled) : (node.withValue value).IsSettled := by
  cases node with
  | assignment => exact ⟨hnode.1, hvalue⟩
  | case => exact ⟨hvalue, hnode.2⟩
  | declaration | ret | global => exact (hvalue :)
  | _ => exact hnode

/-- The value of a fresh node is fresh, and has no empty lists if the node has none. -/
theorem Node.exists_of_value?_erase {node value : Node} (h : node.erase.value? = some value)
    (hfilled : node.IsFilled) : ∃ own : Node, value = own.erase ∧ own.IsFilled := by
  cases node with
  | assignment receiver own => exact ⟨own, (Option.some.inj h).symm, hfilled.2⟩
  | case own body => exact ⟨own, (Option.some.inj h).symm, hfilled.1⟩
  | declaration _ _ own _ | ret own | global _ _ _ own _ _ =>
    exact ⟨own, (Option.some.inj h).symm, hfilled⟩
  | _ => cases h

theorem settled_stray {node : Node} (h : node.IsFilled) (hkind : node.kind? ≠ some .case)
    (rest : List Node) : SettlesCases (node :: rest) := by
  intro tables condition htables
  have hfresh := isSettled_erase node
  rw [eraseAll, checkCases_stray _ _ (by rwa [Node.kind?_erase])]
  refine Checked.Leaves.map (P := IsSettled) ?_
    fun _ h => ⟨⟨h, allSettled_eraseAll rest⟩, htables⟩
  unfold checkStrayCase
  split
  · exact hfresh
  next value hvalue =>
    obtain ⟨own, rfl, hown⟩ := Node.exists_of_value?_erase hvalue h
    refine .ite (.ite hfresh hfresh) (.ite hfresh ?_)
    refine (settled_expression htables own hown).leaves
      (fun _ h => Node.isSettled_withValue hfresh h) fun value' h _ => ?_
    exact .ensure (Node.isSettled_withValue hfresh h) fun _ => Node.isSettled_withValue hfresh h

mutual

theorem settled_statement : ∀ node : Node, node.IsFilled → SettlesStatement node
  | .discard _, h => settled_discard h
  | .declaration .., h => settled_declaration h
  | .assignment .., h => settled_assignment h.1 h.2
  | .branch _ thenBody elseBody, h =>
    settled_branch h.1 (settled_block thenBody h.2.1) (settled_block elseBody h.2.2)
  | .switch _ cases, h => settled_switch h.1 (settled_cases cases h.2)
  | .loop _ body, h => settled_loop h.1 (settled_block body h.2)
  | .ret _, h => settled_ret h
  | .null, _ | .literal .., _ | .group .., _ | .binary .., _ | .access .., _ | .call .., _
  | .listLiteral .., _ | .case .., _ | .global .., _ | .function .., _ | .program .., _ =>
    fun _ htables => ⟨isSettled_erase _, htables⟩

theorem settled_block : ∀ nodes : List Node, AllFilled nodes → SettlesBlock nodes
  | [], _ => fun _ htables => ⟨trivial, htables⟩
  | statement :: rest, h =>
    settled_blockCons (settled_statement statement h.1) (settled_block rest h.2)

theorem settled_cases : ∀ nodes : List Node, AllFilled nodes → SettlesCases nodes
  | [], _ => fun _ _ htables => ⟨trivial, htables⟩
  | node :: rest, h => by
    cases node with
    | case value body =>
      exact settled_case h.1.1 (settled_block body h.1.2) (settled_cases rest h.2)
    | _ => exact settled_stray h.1 nofun rest

end

/-! ### Programs -/

theorem isSettled_withElementTy {node : Node} (h : node.IsSettled) :
    (withElementTy none node).IsSettled := by
  cases node with
  | listLiteral values type => exact ⟨firstFits_none _, h.2⟩
  | _ => exact h

theorem isSettled_forgetElementTy {node : Node} (h : node.IsSettled) :
    node.forgetElementTy.IsSettled := by
  cases node with
  | global | declaration => exact isSettled_withElementTy h
  | _ => exact h

/-- The value of a global variable, with the declared type as the type of its elements if it is a
list. -/
theorem settled_globalExpression {chain : StaticChain} (hchain : WellFormed chain) {value : Node}
    (h : value.IsFilled) (declared : Option Ty) :
    (checkExpression chain (withElementTy declared value.erase)).Leaves
      fun result => (withElementTy none result).IsSettled := by
  have hordinary : ∀ value : Node, value.IsFilled →
      (checkExpression chain value.erase).Leaves fun result =>
        (withElementTy none result).IsSettled :=
    fun value h => isSettled_withElementTy (settled_expression hchain value h).1
  cases value with
  | listLiteral values type =>
    rw [Node.erase, withElementTy, checkExpression]
    exact .map (settled_values (settled_expressions hchain values h.2) declared) fun _ h => ⟨firstFits_none _, h⟩
  | _ => exact hordinary _ h

theorem settled_globalInitial {chain : StaticChain} (hchain : WellFormed chain)
    {declared : Option Ty} {value : Node} (h : value.IsFilled)
    (htyped : declared = none → value.erase.isNull = false) :
    (checkInitial chain declared (withElementTy declared value.erase)).Finds
      (fun outcome => (withElementTy none outcome.1).IsSettled)
      fun outcome => outcome.2.isSome = true := by
  cases declared with
  | none =>
    have hfresh : withElementTy none value.erase = value.erase := by cases value <;> rfl
    rw [hfresh]
    have hinitial := settled_initial hchain h htyped
    exact ⟨isSettled_withElementTy hinitial.1, hinitial.2⟩
  | some ty =>
    have hvalue : (checkExpression chain (withElementTy (some ty) value.erase)).Finds
        (fun result => (withElementTy none result).IsSettled) fun _ => True :=
      ⟨settled_globalExpression hchain h (some ty), fun _ => trivial⟩
    unfold checkInitial
    split
    next hnull =>
      have hsame : withElementTy (some ty) value.erase = value.erase := by
        cases value with
        | listLiteral => cases hnull
        | _ => rfl
      rw [hsame]
      exact ⟨isSettled_withElementTy (isSettled_erase value), fun _ => rfl⟩
    · exact hvalue.bind (fun _ h => h) fun _ h _ => .ensure h fun _ _ => ⟨h, fun _ => rfl⟩

/-- What is asked of a global variable that is checked. -/
def SettlesGlobal (outcome : Node × Tables) : Prop :=
  outcome.1.forgetElementTy.IsSettled ∧ WellFormed outcome.2.chain

theorem settled_globalValue {tables : Tables} (htables : WellFormed tables.chain) {name : String}
    {typeName : Option String} {value : Node} (h : value.IsFilled) {rebuilt : Node → Node}
    {next : Node → Option Ty → Checked (Node × Tables)}
    (hrebuilt : ∀ value, (withElementTy none value).IsSettled →
      (rebuilt value).forgetElementTy.IsSettled)
    (hnext : ∀ value ty, (withElementTy none value).IsSettled →
      (next value (some ty)).Leaves SettlesGlobal) :
    (checkGlobalValue tables name typeName value.erase rebuilt next).Leaves SettlesGlobal := by
  have hfresh : SettlesGlobal (rebuilt value.erase, tables) :=
    ⟨hrebuilt _ (isSettled_withElementTy (isSettled_erase value)), htables⟩
  unfold checkGlobalValue
  split
  · exact hfresh
  next hbare =>
    refine Checked.leaves_ensure hfresh fun declared hdeclared => ?_
    refine (settled_globalInitial htables h (isNull_of_not_bare hbare hdeclared)).leaves
      (fun _ h => ⟨hrebuilt _ h, htables⟩) ?_
    rintro ⟨value', type⟩ hvalue' htype
    obtain ⟨ty, rfl⟩ := Option.isSome_iff_exists.mp htype
    exact hnext value' ty hvalue'

theorem settled_global {tables : Tables} (htables : WellFormed tables.chain) {node : Node}
    (h : node.IsFilled) : (checkGlobal tables node.erase).Leaves SettlesGlobal := by
  cases node with
  | global name isMutable typeName value isList binding =>
    rw [Node.erase, checkGlobal]
    refine settled_globalValue htables (show value.IsFilled from h) (fun _ h => h) ?_
    intro value' ty h
    exact Checked.leaves_ensure ⟨h, htables⟩ fun _ hdeclare => ⟨h, htables.declare hdeclare⟩
  | declaration name typeName value binding =>
    rw [Node.erase, checkGlobal]
    refine settled_globalValue htables (show value.IsFilled from h) (fun _ h => h) ?_
    exact fun value' ty h => ⟨h, htables⟩
  | _ => exact ⟨isSettled_erase _, htables⟩

theorem Tables.WellFormed.declareFunction {tables after : Tables} {f : Signature}
    (h : WellFormed tables.chain) (hdeclare : tables.declareFunction f = .ok after) :
    WellFormed after.chain := by
  obtain ⟨-, rfl⟩ := declareFunction_eq_ok_iff.mp hdeclare
  obtain ⟨⟨hvars, hfuns⟩, houter⟩ := List.forall_mem_cons.mp h
  refine List.forall_mem_cons.mpr ⟨⟨hvars, ?_⟩, houter⟩
  exact List.forall_mem_append.mpr ⟨hfuns, List.forall_mem_singleton.mpr rfl⟩

theorem Tables.WellFormed.bodyTables {tables inside : Tables} {f : Signature}
    {parameters : List String} (h : WellFormed tables.chain)
    (hinside : bodyTables tables f parameters = .ok inside) : WellFormed inside.chain :=
  holds_of_bodyTables (P := fun tables => WellFormed tables.chain) (fun _ _ => h.enter.declare)
    (fun _ _ _ _ _ hbefore => hbefore.declare) hinside

/-- A function whose body is fresh and without empty lists. Nodes of other kinds only have to be
settled. -/
def HasFreshBody : Node → Prop
  | .function _ _ _ _ body _ => eraseAll body = body ∧ AllFilled body
  | other => other.IsSettled

theorem HasFreshBody.isSettled {node : Node} (h : HasFreshBody node) : node.IsSettled := by
  cases node with
  | function => exact Node.allSettled_of_fresh h.1
  | _ => exact h

theorem hasFreshBody_of_fresh {node : Node} (hfresh : node.erase = node) (hfilled : node.IsFilled) :
    HasFreshBody node := by
  cases node with
  | function name parameters parameterTypes resultType body signature =>
    exact ⟨(Node.function.inj hfresh).2.2.2.2.1, hfilled⟩
  | _ => exact Node.isSettled_of_fresh hfresh

theorem settled_signature {tables : Tables} (htables : WellFormed tables.chain) {node : Node}
    (h : HasFreshBody node) : (declareFunction tables node).Leaves fun outcome =>
      HasFreshBody outcome.1 ∧ WellFormed outcome.2.chain := by
  cases node with
  | function =>
    refine .ensure ⟨h, htables⟩ fun found => Checked.leaves_ensure ⟨h, htables⟩ fun _ hdeclare => ?_
    exact ⟨h, htables.declareFunction hdeclare⟩
  | _ => exact ⟨h, htables⟩

theorem settled_function {tables : Tables} (htables : WellFormed tables.chain) {node : Node}
    (h : HasFreshBody node) : (checkFunction tables node).Leaves fun outcome =>
      outcome.1.IsSettled ∧ WellFormed outcome.2.chain := by
  cases node with
  | function name parameters parameterTypes resultType body signature =>
    cases signature with
    | none => exact ⟨h.isSettled, htables⟩
    | some signature =>
      refine Checked.leaves_ensure ⟨h.isSettled, htables⟩ fun inside hinside => ?_
      have hbody := settled_block body h.2 inside (htables.bodyTables hinside)
      rw [h.1] at hbody
      exact .map hbody fun _ hbody' => ⟨hbody'.1, htables⟩
  | _ => exact ⟨h.isSettled, htables⟩

/-- Parts of a program in a row, which have the property `A` before they are checked and `B`
behind. -/
theorem settled_each {check : Tables → Node → Checked (Node × Tables)} {A B : Node → Prop}
    (hstay : ∀ node, A node → B node)
    (hcheck : ∀ {tables : Tables}, WellFormed tables.chain → ∀ {node}, A node →
      (check tables node).Leaves fun outcome => B outcome.1 ∧ WellFormed outcome.2.chain)
    {nodes : List Node} (hnodes : ∀ node ∈ nodes, A node) : ∀ {tables : Tables},
      WellFormed tables.chain → (checkEach check tables nodes).Leaves fun outcome =>
        (∀ node ∈ outcome.1, B node) ∧ WellFormed outcome.2.chain := by
  induction nodes with
  | nil => exact fun htables => ⟨List.forall_mem_nil _, htables⟩
  | cons node rest ih =>
    intro tables htables
    obtain ⟨hnode, hrest⟩ := List.forall_mem_cons.mp hnodes
    have hfresh : ∀ node ∈ rest, B node := fun node hmem => hstay node (hrest node hmem)
    rw [checkEach]
    refine (hcheck htables hnode).bind
      (fun _ h => ⟨List.forall_mem_cons.mpr ⟨h.1, hfresh⟩, h.2⟩) ?_
    rintro ⟨node', between⟩ ⟨hnode', hbetween⟩
    exact .map (ih hrest hbetween) fun _ h => ⟨List.forall_mem_cons.mpr ⟨hnode', h.1⟩, h.2⟩

theorem forall_fresh_of_eraseAll {nodes : List Node} (hfresh : eraseAll nodes = nodes)
    (hfilled : AllFilled nodes) : ∀ node ∈ nodes, node.erase = node ∧ node.IsFilled := by
  intro node hnode
  refine ⟨?_, everyListIn_iff.mp hfilled node hnode⟩
  rw [Node.eraseAll_eq_map] at hfresh
  exact List.map_inj_left.mp (hfresh.trans (List.map_id nodes).symm) node hnode

/-- What the analysis leaves behind of a fresh program without empty lists is settled, wherever the
analysis stops. -/
theorem settled_program {node : Node} (hfresh : node.erase = node) (hfilled : node.IsFilled) :
    (checkProgram .initial node).Leaves fun outcome => IsSettledProgram outcome.1 := by
  cases node with
  | program globals functions =>
    obtain ⟨hglobals, hfunctions⟩ := Node.program.inj hfresh
    have hglobals := forall_fresh_of_eraseAll hglobals hfilled.1
    have hfunctions := forall_fresh_of_eraseAll hfunctions hfilled.2
    have hfresh : ∀ node ∈ functions, HasFreshBody node := fun node hnode =>
      hasFreshBody_of_fresh (hfunctions node hnode).1 (hfunctions node hnode).2
    have hsettled : ∀ node ∈ functions, node.IsSettled := fun node hnode =>
      (hfresh node hnode).isSettled
    have hstay : ∀ node : Node, node.erase = node ∧ node.IsFilled →
        node.forgetElementTy.IsSettled :=
      fun node h => isSettled_forgetElementTy (Node.isSettled_of_fresh h.1)
    have hstart : ∀ {level text}, (Checked.noted level text ()).Leaves fun _ => True := trivial
    rw [checkProgram]
    -- the analysis may stop in each of the rows; what has not been reached is fresh
    refine hstart.bind (fun _ _ => ?_) fun _ _ => ?_
    · exact ⟨fun node hnode => hstay node (hglobals node hnode), hsettled⟩
    refine (settled_each hstay (fun htables _ h => h.1 ▸ settled_global htables h.2) hglobals
      wellFormed_initial).bind (fun _ h => ⟨h.1, hsettled⟩) ?_
    rintro ⟨globals', behind⟩ ⟨hglobals', hbehind⟩
    refine (settled_each (fun _ h => h) settled_signature hfresh hbehind).bind
      (fun _ h => ⟨hglobals', fun node hnode => (h.1 node hnode).isSettled⟩) ?_
    rintro ⟨signed, declared⟩ ⟨hsigned, hdeclared⟩
    exact .map (settled_each (fun _ h => h.isSettled) settled_function hsigned hdeclared)
      fun _ h => ⟨hglobals', h.1⟩
  | _ => trivial

end BlockScript

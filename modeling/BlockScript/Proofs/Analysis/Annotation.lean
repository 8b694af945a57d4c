import BlockScript.Analysis.Program
import Mathlib.Data.List.Forall2
/-!
# Checking only annotates

Whatever a check finds, and wherever it stops, the tree that it leaves behind is the one that it was
given, up to annotations.

## Main definitions

* `Checked.Leaves` — what a check leaves behind, with or without a fault

## Main results

* `annotates_expression`, `annotates_statement`, `annotates_program` — what is left behind has the
  same tree
-/

namespace BlockScript

namespace Checked

variable {α β γ : Type} {P : α → Prop} {Q : β → Prop}

/-- What a check leaves behind has a property, whether it finds a fault or not. -/
def Leaves (x : Checked α) (P : α → Prop) : Prop :=
  P x.result

namespace Leaves

theorem map {x : Checked α} {f : α → β} (h : x.Leaves P) (hf : ∀ a, P a → Q (f a)) :
    (x.map f).Leaves Q :=
  hf _ h

theorem bind {x : Checked α} {soFar : α → β} {next : α → Checked β} (h : x.Leaves P)
    (hsoFar : ∀ a, P a → Q (soFar a)) (hnext : ∀ a, P a → (next a).Leaves Q) :
    (x.bind soFar next).Leaves Q := by
  unfold Checked.bind
  split
  · exact hsoFar _ h
  · exact hnext _ h

theorem ensure {requirement : Except AnalysisError γ} {soFar : β} {next : γ → Checked β}
    (hsoFar : Q soFar) (hnext : ∀ c, (next c).Leaves Q) :
    (Checked.ensure requirement soFar next).Leaves Q := by
  cases requirement with
  | ok c => exact hnext c
  | error e => exact hsoFar

theorem ite {p : Prop} [Decidable p] {x y : Checked α} (hx : x.Leaves P) (hy : y.Leaves P) :
    (if p then x else y).Leaves P := by
  split
  · exact hx
  · exact hy

end Leaves

end Checked

open Checked

/-! ### Expressions -/

mutual

theorem annotates_expression (chain : StaticChain) : ∀ node : Node,
    (checkExpression chain node).Leaves fun result => result.erase = node.erase
  | .literal .. => rfl
  | .group inner type => by
    rw [checkExpression]
    refine .ite ((annotates_expression chain inner).bind ?_ ?_) rfl
    · intro inner hinner
      simp only [Node.erase, hinner]
    · intro inner hinner
      change (Node.group inner inner.type?).erase = _
      simp only [Node.erase, hinner]
  | .binary symbol left right type => by
    rw [checkExpression]
    refine (annotates_expression chain left).bind ?_ fun left hleft => ?_
    · intro left hleft
      rw [Node.erase, Node.erase, hleft]
    refine (annotates_expression chain right).bind ?_ fun right hright => ?_
    · intro right hright
      rw [Node.erase, Node.erase, hleft, hright]
    refine .ensure ?_ fun ty => ?_
    · simp only [Node.erase, hleft, hright]
    · change (Node.binary symbol left right (some ty)).erase = _
      simp only [Node.erase, hleft, hright]
  | .access name offset type binding => by
    rw [checkExpression]
    have hchecked : (if offset.isNull then Checked.done offset
        else checkExpression chain offset).Leaves fun result => result.erase = offset.erase :=
      .ite rfl (annotates_expression chain offset)
    have hnode : ∀ {offset' : Node} {type' binding'}, offset'.erase = offset.erase →
        (Node.access name offset' type' binding').erase =
          (Node.access name offset type binding).erase := by
      intro offset' type' binding' h
      rw [Node.erase, Node.erase, h]
    refine hchecked.bind (fun _ => hnode) fun offset' hoffset => ?_
    refine .ite (hnode hoffset) (.ensure (hnode hoffset) fun found => ?_)
    exact .ite (hnode hoffset) (.ite (hnode hoffset) (hnode hoffset))
  | .call name arguments type callee => by
    rw [checkExpression]
    refine .ensure rfl fun found => ?_
    refine (annotates_arguments chain arguments found.parameters).bind ?_ ?_
    · intro arguments harguments
      rw [Node.erase, Node.erase, harguments]
    · intro arguments harguments
      change (Node.call name arguments _ _).erase = _
      simp only [Node.erase, harguments]
  | .listLiteral values type => by
    rw [checkExpression]
    refine (annotates_values chain values type).map ?_
    rintro ⟨values, type⟩ hvalues
    rw [Node.erase, Node.erase, hvalues]
  | .null | .discard .. | .declaration .. | .assignment .. | .branch .. | .case .. | .switch ..
  | .loop .. | .ret .. | .global .. | .function .. | .program .. => rfl

theorem annotates_arguments (chain : StaticChain) : ∀ (nodes : List Node) (types : List Ty),
    (checkArguments chain nodes types).Leaves fun results =>
      Node.eraseAll results = Node.eraseAll nodes
  | argument :: rest, parameter :: parameters => by
    rw [checkArguments]
    refine (annotates_expression chain argument).bind ?_ fun argument hargument => ?_
    · intro argument hargument
      rw [Node.eraseAll, Node.eraseAll, hargument]
    refine .ensure ?_ fun _ => (annotates_arguments chain rest parameters).map ?_
    · rw [Node.eraseAll, Node.eraseAll, hargument]
    · intro rest hrest
      rw [Node.eraseAll, Node.eraseAll, hargument, hrest]
  | [], _ => rfl
  | _ :: _, [] => rfl

theorem annotates_values (chain : StaticChain) : ∀ (nodes : List Node) (type : Option Ty),
    (checkValues chain nodes type).Leaves fun outcome =>
      Node.eraseAll outcome.1 = Node.eraseAll nodes
  | [], _ => rfl
  | value :: rest, type => by
    rw [checkValues]
    refine (annotates_expression chain value).bind ?_ fun value hvalue => ?_
    · intro value hvalue
      rw [Node.eraseAll, Node.eraseAll, hvalue]
    refine .ensure ?_ fun _ => (annotates_values chain rest _).map ?_
    · rw [Node.eraseAll, Node.eraseAll, hvalue]
    · rintro ⟨rest, type⟩ hrest
      rw [Node.eraseAll, Node.eraseAll, hvalue, hrest]

end

theorem annotates_initial (chain : StaticChain) (declared : Option Ty) (value : Node) :
    (checkInitial chain declared value).Leaves fun outcome => outcome.1.erase = value.erase := by
  unfold checkInitial
  refine .ite rfl ((annotates_expression chain value).bind (fun _ h => h) fun value h => ?_)
  cases declared with
  | none => exact h
  | some ty => exact .ensure h fun _ => h

/-! ### Statements -/

theorem Node.erase_withValue {value value' : Node} {node : Node} (hnode : node.value? = some value)
    (h : value'.erase = value.erase) : (node.withValue value').erase = node.erase := by
  cases node with
  | declaration | assignment | case | ret | global =>
    cases hnode
    simp only [withValue, erase, h]
  | _ => cases hnode

theorem annotates_strayCase (chain : StaticChain) (condition : Option Ty) (isLast : Bool)
    (node : Node) : (checkStrayCase chain condition isLast node).Leaves fun result =>
      result.erase = node.erase := by
  unfold checkStrayCase
  split
  · rfl
  · rename_i value hvalue
    refine .ite (.ite rfl rfl) (.ite rfl ?_)
    refine (annotates_expression chain value).bind ?_ fun value' h => ?_
    · exact fun value' h => Node.erase_withValue hvalue h
    · exact .ensure (Node.erase_withValue hvalue h) fun _ => Node.erase_withValue hvalue h

mutual

theorem annotates_statement : ∀ (tables : Tables) (node : Node),
    (checkStatement tables node).Leaves fun outcome => outcome.1.erase = node.erase
  | tables, .discard inner => by
    rw [checkStatement]
    refine (annotates_expression tables.chain inner).bind ?_ fun expression h => ?_
    · intro expression h
      simp only [Node.erase, h]
    have hnode : (Node.discard expression).erase = (Node.discard inner).erase := by
      simp only [Node.erase, h]
    exact .ite hnode hnode
  | tables, .declaration name typeName value binding => by
    rw [checkStatement]
    have hnode : ∀ {value' : Node} {binding'}, value'.erase = value.erase →
        (Node.declaration name typeName value' binding').erase =
          (Node.declaration name typeName value binding).erase := by
      intro value' binding' h
      rw [Node.erase, Node.erase, h]
    refine .ite rfl (.ensure rfl fun declared => ?_)
    refine (annotates_initial tables.chain declared value).bind (fun _ => hnode) fun initial h => ?_
    exact .ensure (hnode h) fun _ => hnode h
  | tables, .assignment receiver value => by
    rw [checkStatement]
    have hnode : ∀ {receiver' value' : Node}, receiver'.erase = receiver.erase →
        value'.erase = value.erase →
          (Node.assignment receiver' value').erase = (Node.assignment receiver value).erase := by
      intro receiver' value' hreceiver hvalue
      rw [Node.erase, Node.erase, hreceiver, hvalue]
    refine .ite ?_ rfl
    refine (annotates_expression tables.chain value).bind (fun _ => hnode rfl) fun _ hvalue => ?_
    refine (annotates_expression tables.chain receiver).bind (fun _ h => hnode h hvalue) ?_
    exact fun _ h => .ensure (hnode h hvalue) fun _ => hnode h hvalue
  | tables, .branch condition thenBody elseBody => by
    rw [checkStatement]
    have hnode : ∀ {condition' : Node} {thenBody' elseBody' : List Node},
        condition'.erase = condition.erase → Node.eraseAll thenBody' = Node.eraseAll thenBody →
          Node.eraseAll elseBody' = Node.eraseAll elseBody →
            (Node.branch condition' thenBody' elseBody').erase =
              (Node.branch condition thenBody elseBody).erase := by
      intro condition' thenBody' elseBody' hcondition hthen helse
      rw [Node.erase, Node.erase, hcondition, hthen, helse]
    refine (annotates_expression tables.chain condition).bind (fun _ h => hnode h rfl rfl) ?_
    intro condition' hcondition
    refine .ensure (hnode hcondition rfl rfl) fun _ => .ite (hnode hcondition rfl rfl) ?_
    refine (annotates_block tables.enter thenBody).bind (fun _ h => hnode hcondition h rfl) ?_
    rintro ⟨thenBody', inside⟩ hthen
    refine (annotates_block (tables.resume inside).enter elseBody).map ?_
    exact fun _ helse => hnode hcondition hthen helse
  | tables, .switch condition cases => by
    rw [checkStatement]
    refine (annotates_expression tables.chain condition).bind ?_ fun condition hcondition => ?_
    · intro condition hcondition
      rw [Node.erase, Node.erase, hcondition]
    refine (annotates_cases tables condition.type? cases).map ?_
    rintro ⟨cases, after⟩ hcases
    rw [Node.erase, Node.erase, hcondition, hcases]
  | tables, .loop condition body => by
    rw [checkStatement]
    refine (annotates_expression tables.chain condition).bind ?_ fun condition hcondition => ?_
    · intro condition hcondition
      rw [Node.erase, Node.erase, hcondition]
    refine .ensure ?_ fun _ => (annotates_block tables.enter body).map ?_
    · rw [Node.erase, Node.erase, hcondition]
    · rintro ⟨body, inside⟩ hbody
      rw [Node.erase, Node.erase, hcondition, hbody]
  | tables, .ret value => by
    rw [checkStatement]
    have hnode : ∀ value' : Node, value'.erase = value.erase →
        (Node.ret value').erase = (Node.ret value).erase := by
      intro value' h
      rw [Node.erase, Node.erase, h]
    refine (annotates_expression tables.chain value).bind hnode fun value' h => ?_
    exact .ensure (hnode _ h) fun _ => .ensure (hnode _ h) fun _ => hnode _ h
  | _, .null | _, .literal .. | _, .group .. | _, .binary .. | _, .access .. | _, .call ..
  | _, .listLiteral .. | _, .case .. | _, .global .. | _, .function .. | _, .program .. => rfl

theorem annotates_block : ∀ (tables : Tables) (nodes : List Node),
    (checkBlock tables nodes).Leaves fun outcome =>
      Node.eraseAll outcome.1 = Node.eraseAll nodes
  | _, [] => rfl
  | tables, statement :: rest => by
    rw [checkBlock]
    refine (annotates_statement tables statement).bind ?_ ?_
    · rintro ⟨statement, after⟩ h
      rw [Node.eraseAll, Node.eraseAll, h]
    rintro ⟨statement, after⟩ h
    refine (annotates_block after rest).map ?_
    rintro ⟨rest, behind⟩ hrest
    rw [Node.eraseAll, Node.eraseAll, h, hrest]

theorem annotates_cases : ∀ (tables : Tables) (condition : Option Ty) (nodes : List Node),
    (checkCases tables condition nodes).Leaves fun outcome =>
      Node.eraseAll outcome.1 = Node.eraseAll nodes
  | _, _, [] => rfl
  | tables, condition, node :: rest => by
    cases node with
    | case value body =>
      rw [checkCases]
      have hvalue : (if value.isNull then
          if rest.isEmpty then Checked.done value else .refuse value .earlyDefault
        else if rest.isEmpty then .refuse value .missingDefault
        else
          (checkExpression tables.chain value).bind (fun value => value) fun value =>
          .ensure (requireAccepted condition value.type?) value fun _ => .done value).Leaves
            fun result => result.erase = value.erase := by
        refine .ite (.ite rfl rfl) (.ite rfl ?_)
        exact (annotates_expression tables.chain value).bind (fun _ h => h) fun value h =>
          .ensure h fun _ => h
      refine hvalue.bind ?_ fun value hvalue => ?_
      · intro value hvalue
        rw [Node.eraseAll, Node.eraseAll, Node.erase, Node.erase, hvalue]
      refine (annotates_block tables.enter body).bind ?_ ?_
      · rintro ⟨body, inside⟩ hbody
        rw [Node.eraseAll, Node.eraseAll, Node.erase, Node.erase, hvalue, hbody]
      rintro ⟨body, inside⟩ hbody
      refine (annotates_cases (tables.resume inside) condition rest).map ?_
      rintro ⟨rest, after⟩ hrest
      rw [Node.eraseAll, Node.eraseAll, Node.erase, Node.erase, hvalue, hbody, hrest]
    | _ =>
      rw [checkCases]
      · refine (annotates_strayCase tables.chain condition rest.isEmpty _).map ?_
        intro node hnode
        rw [Node.eraseAll, Node.eraseAll, hnode]
      · exact nofun

end

/-! ### Programs -/

theorem Node.erase_withElementTy (declared : Option Ty) (value : Node) :
    (withElementTy declared value).erase = value.erase := by
  cases value <;> rfl

theorem annotates_globalValue {tables : Tables} {name : String} {typeName : Option String}
    {value : Node} {rebuilt : Node → Node} {next : Node → Option Ty → Checked (Node × Tables)}
    {Q : Node × Tables → Prop}
    (hrebuilt : ∀ value', value'.erase = value.erase → Q (rebuilt value', tables))
    (hnext : ∀ value' ty, value'.erase = value.erase → (next value' ty).Leaves Q) :
    (checkGlobalValue tables name typeName value rebuilt next).Leaves Q := by
  refine .ite (hrebuilt _ rfl) (.ensure (hrebuilt _ rfl) fun declared => ?_)
  have hinitial := annotates_initial tables.chain declared (withElementTy declared value)
  rw [Node.erase_withElementTy] at hinitial
  exact hinitial.bind (fun _ h => hrebuilt _ h) fun _ h => hnext _ _ h

theorem annotates_global (tables : Tables) (node : Node) :
    (checkGlobal tables node).Leaves fun outcome => outcome.1.erase = node.erase := by
  cases node with
  | global name mutable typeName value isList binding =>
    have hnode : ∀ (value' : Node) binding', value'.erase = value.erase →
        (Node.global name mutable typeName value' isList binding').erase =
          (Node.global name mutable typeName value isList binding).erase := by
      intro value' binding' h
      rw [Node.erase, Node.erase, h]
    rw [checkGlobal]
    refine annotates_globalValue (fun _ => hnode _ _) fun _ _ h => ?_
    exact .ensure (hnode _ _ h) fun _ => hnode _ _ h
  | declaration name typeName value binding =>
    have hnode : ∀ value' : Node, value'.erase = value.erase →
        (Node.declaration name typeName value' binding).erase =
          (Node.declaration name typeName value binding).erase := by
      intro value' h
      rw [Node.erase, Node.erase, h]
    rw [checkGlobal]
    exact annotates_globalValue hnode fun _ _ h => hnode _ h
  | _ => rfl

theorem annotates_signature (tables : Tables) (node : Node) :
    (declareFunction tables node).Leaves fun outcome => outcome.1.erase = node.erase := by
  cases node with
  | function => exact .ensure rfl fun _ => .ensure rfl fun _ => rfl
  | _ => rfl

theorem annotates_function (tables : Tables) (node : Node) :
    (checkFunction tables node).Leaves fun outcome => outcome.1.erase = node.erase := by
  cases node with
  | function name parameters parameterTypes resultType body signature =>
    cases signature with
    | none => rfl
    | some signature =>
      refine .ensure rfl fun inside => (annotates_block inside body).map ?_
      rintro ⟨body, behind⟩ hbody
      rw [Node.erase, Node.erase, hbody]
  | _ => rfl

/-- What several checks in a row leave of each node, if what holds of the tables in front of a check
holds behind it. Nodes behind a fault are left as they are. -/
theorem leaves_each {check : Tables → Node → Checked (Node × Tables)} {R : Node → Node → Prop}
    {I : Tables → Prop} (hrefl : ∀ node, R node node)
    (hcheck : ∀ tables, I tables → ∀ node,
      (check tables node).Leaves fun outcome => R node outcome.1 ∧ I outcome.2)
    (nodes : List Node) : ∀ tables, I tables → (checkEach check tables nodes).Leaves fun outcome =>
      List.Forall₂ R nodes outcome.1 ∧ I outcome.2 := by
  induction nodes with
  | nil => exact fun tables htables => ⟨.nil, htables⟩
  | cons node rest ih =>
    intro tables htables
    refine (hcheck tables htables node).bind ?_ ?_
    · rintro ⟨node', after⟩ ⟨hnode, hafter⟩
      exact ⟨.cons hnode (List.forall₂_same.mpr fun node _ => hrefl node), hafter⟩
    rintro ⟨node', after⟩ ⟨hnode, hafter⟩
    refine (ih after hafter).map ?_
    rintro ⟨rest', behind⟩ ⟨hrest, hbehind⟩
    exact ⟨.cons hnode hrest, hbehind⟩

theorem annotates_each {check : Tables → Node → Checked (Node × Tables)}
    (hcheck : ∀ tables node,
      (check tables node).Leaves fun outcome => outcome.1.erase = node.erase)
    (tables : Tables) (nodes : List Node) : (checkEach check tables nodes).Leaves fun outcome =>
      Node.eraseAll outcome.1 = Node.eraseAll nodes := by
  have hall : ∀ {nodes results : List Node},
      List.Forall₂ (fun node result => result.erase = node.erase) nodes results →
        Node.eraseAll results = Node.eraseAll nodes := by
    intro nodes results h
    induction h with
    | nil => rfl
    | cons h _ ih => rw [Node.eraseAll, Node.eraseAll, h, ih]
  have heach := leaves_each (R := fun node result => result.erase = node.erase)
    (I := fun _ => True) (fun _ => rfl) (fun tables _ node => ⟨hcheck tables node, trivial⟩) nodes
    tables trivial
  exact hall heach.1

/-- The analysis of a program leaves the program behind, up to annotations, even if it stops at a
fault. -/
theorem annotates_program (tables : Tables) (node : Node) :
    (checkProgram tables node).Leaves fun outcome => outcome.1.erase = node.erase := by
  cases node with
  | program globals functions =>
    have hnode : ∀ {globals' functions' : List Node},
        Node.eraseAll globals' = Node.eraseAll globals →
        Node.eraseAll functions' = Node.eraseAll functions →
        (Node.program globals' functions').erase = (Node.program globals functions).erase := by
      intro globals' functions' hglobals hfunctions
      rw [Node.erase, Node.erase, hglobals, hfunctions]
    rw [checkProgram]
    have hstart : ∀ {level text}, (Checked.noted level text ()).Leaves fun _ => True := trivial
    refine hstart.bind (fun _ _ => rfl) fun _ _ => ?_
    refine (annotates_each annotates_global tables globals).bind (fun _ h => hnode h rfl) ?_
    rintro ⟨globals', behind⟩ hglobals
    refine (annotates_each annotates_signature behind functions).bind
      (fun _ h => hnode hglobals h) ?_
    rintro ⟨signed, declared⟩ hsigned
    refine (annotates_each annotates_function declared signed).map ?_
    rintro ⟨results, after⟩ hresults
    exact hnode hglobals (hresults.trans hsigned)
  | _ => rfl

end BlockScript

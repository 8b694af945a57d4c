import BlockScript.Proofs.Repetition.Expression
/-!
# Checking statements twice

A check of a block declares the variables of the block in the same order as the check before it did,
so bindings get the same numbers again. Where the check before has stopped, the later one stops.

## Main definitions

* `AgainStatement`, `AgainBlock`, `AgainCases` — what is left of statements is found again

## Main results

* `again_statement`, `again_block` — statements and blocks in any tables
-/

namespace BlockScript

open Checked (Again bind_of_some bind_eq_after)
open Node (AllSettled)

theorem Node.isEmpty_eq_of_eraseAll_eq {nodes nodes' : List Node}
    (h : eraseAll nodes = eraseAll nodes') : nodes.isEmpty = nodes'.isEmpty := by
  rw [eraseAll_eq_map, eraseAll_eq_map] at h
  simpa using congrArg List.isEmpty h

/-- A requirement that adds nothing leaves the same behind whether it is met or not. -/
theorem Checked.result_ensure {α γ : Type} {requirement : Except AnalysisError γ} {a : α}
    {next : γ → Checked α} (h : ∀ c, (next c).result = a) :
    (Checked.ensure requirement a next).result = a := by
  cases requirement with
  | ok c => exact h c
  | error e => rfl

/-- What is left behind two checks, if the second one adds nothing to what it says is left behind
the first one. -/
theorem Checked.result_bind {α β : Type} {x : Checked α} {f : α → β} {next : α → Checked β}
    (h : ∀ a, (next a).result = f a) : (x.bind f next).result = f x.result := by
  unfold Checked.bind
  split
  · rfl
  · exact h x.result

/-! ### Initial values -/

section

variable {chain : StaticChain} {s : Prop} {value value' : Node}

theorem result_initial (chain : StaticChain) (declared : Option Ty) (hnull : value.isNull = false) :
    (checkInitial chain declared value).result.1 = (checkExpression chain value).result := by
  unfold checkInitial
  rw [if_neg (by simp [hnull])]
  cases hfault : (checkExpression chain value).fault with
  | some fault =>
    rw [bind_of_some hfault]
    rfl
  | none =>
    rw [bind_eq_after hfault]
    cases declared with
    | none => rfl
    | some ty => exact congrArg Prod.fst (Checked.result_ensure fun _ => rfl)

/-- A check of an initial value looks at the tree in the check of the expression only. -/
theorem Checked.Again.initial (declared : Option Ty) (hnull : value.isNull = false)
    (hnull' : value'.isNull = false)
    (h : Again s (checkExpression chain value) (checkExpression chain value')) :
    Again s (checkInitial chain declared value) (checkInitial chain declared value') := by
  unfold checkInitial
  rw [if_neg (by simp [hnull]), if_neg (by simp [hnull'])]
  exact h.bind id

theorem again_initial (chain : StaticChain) (declared : Option Ty) (value : Node) :
    let checked := checkInitial chain declared value
    Again checked.result.1.IsSettled checked (checkInitial chain declared checked.result.1) := by
  cases hnull : value.isNull with
  | true =>
    have hdone : checkInitial chain declared value = .done (value, declared) := if_pos hnull
    rw [hdone]
    exact .inl hdone
  | false =>
    have hnull' : (checkExpression chain value).result.isNull = false :=
      (Node.isNull_eq_of_erase_eq (annotates_expression chain value)).trans hnull
    dsimp only
    rw [result_initial chain declared hnull]
    exact (again_expression chain value).initial declared hnull hnull'

end

/-! ### Statements -/

/-- What is left of a statement is found again. -/
def AgainStatement (tables : Tables) (node : Node) : Prop :=
  let checked := checkStatement tables node
  Again checked.result.1.IsSettled checked (checkStatement tables checked.result.1)

/-- What is left of a block is found again. -/
def AgainBlock (tables : Tables) (nodes : List Node) : Prop :=
  let checked := checkBlock tables nodes
  Again (AllSettled checked.result.1) checked (checkBlock tables checked.result.1)

/-- What is left of the cases of a switch is found again. -/
def AgainCases (tables : Tables) (condition : Option Ty) (nodes : List Node) : Prop :=
  let checked := checkCases tables condition nodes
  Again (AllSettled checked.result.1) checked (checkCases tables condition checked.result.1)

section

variable {tables : Tables}

theorem again_discard (expression : Node) : AgainStatement tables (.discard expression) := by
  have hexpression := again_expression tables.chain expression
  unfold AgainStatement
  rw [checkStatement]
  cases hfault : (checkExpression tables.chain expression).fault with
  | some fault =>
    rw [bind_of_some hfault]
    change Again _ _ (checkStatement tables (.discard (checkExpression tables.chain _).result))
    rw [checkStatement]
    exact hexpression.stop id hfault rfl
  | none =>
    rw [bind_eq_after hfault]
    split
    next hcall =>
      change Again _ _ (checkStatement tables (.discard (checkExpression tables.chain _).result))
      rw [checkStatement]
      refine hexpression.go id hfault ?_
      rw [if_pos hcall]
      exact .refl _
    next hcall =>
      change Again _ _ (checkStatement tables (.discard (checkExpression tables.chain _).result))
      rw [checkStatement]
      refine hexpression.go id hfault ?_
      rw [if_neg hcall]
      exact .refl _

theorem again_declaration (name : String) (typeName : Option String) (value : Node)
    (binding : Option Binding) :
    AgainStatement tables (.declaration name typeName value binding) := by
  unfold AgainStatement
  rw [checkStatement]
  split
  next hbare =>
    change Again _ _ (checkStatement tables (.declaration name typeName value binding))
    rw [checkStatement, if_pos hbare]
    exact .refl _
  next hbare =>
    cases hresolve : resolveTy typeName with
    | error e =>
      change Again _ _ (checkStatement tables (.declaration name typeName value binding))
      rw [checkStatement, if_neg hbare, hresolve]
      exact .refl _
    | ok declared =>
      rw [Checked.ensure_ok]
      have hinitial := again_initial tables.chain declared value
      -- an initial value is missing the second time if it was missing the first time
      have hnull : (checkInitial tables.chain declared value).result.1.isNull = value.isNull :=
        Node.isNull_eq_of_erase_eq (annotates_initial tables.chain declared value)
      cases hfault : (checkInitial tables.chain declared value).fault with
      | some fault =>
        rw [bind_of_some hfault]
        change Again _ _ (checkStatement tables
          (.declaration name typeName (checkInitial tables.chain declared value).result.1 binding))
        rw [checkStatement, hnull, if_neg hbare, hresolve, Checked.ensure_ok]
        exact hinitial.stop id hfault rfl
      | none =>
        rw [bind_eq_after hfault]
        cases hdeclare : tables.declare name
            (checkInitial tables.chain declared value).result.2 true false with
        | error e =>
          simp only [hdeclare]
          change Again _ _ (checkStatement tables (.declaration name typeName
            (checkInitial tables.chain declared value).result.1 binding))
          rw [checkStatement, hnull, if_neg hbare, hresolve, Checked.ensure_ok]
          refine hinitial.go id hfault ?_
          simp only [hdeclare]
          exact .refl _
        | ok entry =>
          simp only [hdeclare, Checked.ensure_ok]
          change Again _ _ (checkStatement tables (.declaration name typeName
            (checkInitial tables.chain declared value).result.1 (some entry.1)))
          rw [checkStatement, hnull, if_neg hbare, hresolve, Checked.ensure_ok]
          refine hinitial.go id hfault ?_
          simp only [hdeclare]
          exact .refl _

theorem again_assignment (receiver value : Node) :
    AgainStatement tables (.assignment receiver value) := by
  have hvalue := again_expression tables.chain value
  have hreceiver := again_expression tables.chain receiver
  -- what is assigned to is a variable or an element of a list both times
  have hkind := Node.kind?_eq_of_erase_eq (annotates_expression tables.chain receiver)
  unfold AgainStatement
  rw [checkStatement]
  split
  next haccess =>
    cases hv : (checkExpression tables.chain value).fault with
    | some fault =>
      rw [bind_of_some hv]
      change Again _ _
        (checkStatement tables (.assignment receiver (checkExpression tables.chain value).result))
      rw [checkStatement, if_pos haccess]
      exact hvalue.stop And.right hv rfl
    | none =>
      rw [bind_eq_after hv]
      cases hr : (checkExpression tables.chain receiver).fault with
      | some fault =>
        rw [bind_of_some hr]
        change Again _ _ (checkStatement tables (.assignment
          (checkExpression tables.chain receiver).result
          (checkExpression tables.chain value).result))
        rw [checkStatement, if_pos (hkind.trans haccess)]
        exact hvalue.go And.right hv (hreceiver.stop And.left hr rfl)
      | none =>
        rw [bind_eq_after hr]
        change Again (Node.IsSettled (Prod.fst (Checked.ensure _ _ _).result)) _
          (checkStatement tables (Prod.fst (Checked.ensure _ _ _).result))
        rw [Checked.result_ensure]
        · rw [checkStatement, if_pos (hkind.trans haccess)]
          exact hvalue.go And.right hv (hreceiver.go And.left hr (.refl _))
        · exact fun _ => rfl
  next haccess =>
    change Again _ _ (checkStatement tables (.assignment receiver value))
    rw [checkStatement, if_neg haccess]
    exact .refl _

theorem again_ret (value : Node) : AgainStatement tables (.ret value) := by
  have hvalue := again_expression tables.chain value
  unfold AgainStatement
  rw [checkStatement]
  cases hfault : (checkExpression tables.chain value).fault with
  | some fault =>
    rw [bind_of_some hfault]
    change Again _ _ (checkStatement tables (.ret (checkExpression tables.chain value).result))
    rw [checkStatement]
    exact hvalue.stop id hfault rfl
  | none =>
    rw [bind_eq_after hfault]
    change Again (Node.IsSettled (Prod.fst (Checked.ensure _ _ _).result)) _
      (checkStatement tables (Prod.fst (Checked.ensure _ _ _).result))
    rw [Checked.result_ensure]
    · rw [checkStatement]
      exact hvalue.go id hfault (.refl _)
    · exact fun _ => Checked.result_ensure fun _ => rfl

theorem again_loop (condition : Node) {body : List Node} (hbody : AgainBlock tables.enter body) :
    AgainStatement tables (.loop condition body) := by
  have hcondition := again_expression tables.chain condition
  unfold AgainStatement
  rw [checkStatement]
  cases hfault : (checkExpression tables.chain condition).fault with
  | some fault =>
    rw [bind_of_some hfault]
    change Again _ _
      (checkStatement tables (.loop (checkExpression tables.chain condition).result body))
    rw [checkStatement]
    exact hcondition.stop And.left hfault rfl
  | none =>
    rw [bind_eq_after hfault]
    cases hboolean : requireAccepted (some .boolean)
        (checkExpression tables.chain condition).result.type? with
    | error e =>
      change Again _ _
        (checkStatement tables (.loop (checkExpression tables.chain condition).result body))
      rw [checkStatement]
      refine hcondition.go And.left hfault ?_
      rw [hboolean]
      exact .refl _
    | ok met =>
      rw [Checked.ensure_ok]
      change Again _ _ (checkStatement tables (.loop (checkExpression tables.chain condition).result
        (checkBlock tables.enter body).result.1))
      rw [checkStatement]
      refine hcondition.go And.left hfault ?_
      rw [hboolean, Checked.ensure_ok]
      exact hbody.map And.right rfl

theorem again_switch (condition : Node) {cases : List Node}
    (hcases : ∀ type, AgainCases tables type cases) :
    AgainStatement tables (.switch condition cases) := by
  have hcondition := again_expression tables.chain condition
  unfold AgainStatement
  rw [checkStatement]
  cases hfault : (checkExpression tables.chain condition).fault with
  | some fault =>
    rw [bind_of_some hfault]
    change Again _ _
      (checkStatement tables (.switch (checkExpression tables.chain condition).result cases))
    rw [checkStatement]
    exact hcondition.stop And.left hfault rfl
  | none =>
    rw [bind_eq_after hfault]
    change Again _ _ (checkStatement tables (.switch (checkExpression tables.chain condition).result
      (checkCases tables _ cases).result.1))
    rw [checkStatement]
    exact hcondition.go And.left hfault ((hcases _).map And.right rfl)

theorem again_branch (condition : Node) {thenBody elseBody : List Node}
    (hthen : ∀ tables, AgainBlock tables thenBody) (helse : ∀ tables, AgainBlock tables elseBody) :
    AgainStatement tables (.branch condition thenBody elseBody) := by
  have hcondition := again_expression tables.chain condition
  -- an empty block ends the check of a conditional statement, and a check empties no block
  have hempty : (checkBlock tables.enter thenBody).result.1.isEmpty = thenBody.isEmpty :=
    Node.isEmpty_eq_of_eraseAll_eq (annotates_block tables.enter thenBody)
  unfold AgainStatement
  rw [checkStatement]
  cases hfault : (checkExpression tables.chain condition).fault with
  | some fault =>
    rw [bind_of_some hfault]
    change Again _ _ (checkStatement tables
      (.branch (checkExpression tables.chain condition).result thenBody elseBody))
    rw [checkStatement]
    exact hcondition.stop And.left hfault rfl
  | none =>
    rw [bind_eq_after hfault]
    cases hboolean : requireAccepted (some .boolean)
        (checkExpression tables.chain condition).result.type? with
    | error e =>
      change Again _ _ (checkStatement tables
        (.branch (checkExpression tables.chain condition).result thenBody elseBody))
      rw [checkStatement]
      refine hcondition.go And.left hfault ?_
      rw [hboolean]
      exact .refl _
    | ok met =>
      rw [Checked.ensure_ok]
      split
      next hnothing =>
        change Again _ _ (checkStatement tables
          (.branch (checkExpression tables.chain condition).result thenBody elseBody))
        rw [checkStatement]
        refine hcondition.go And.left hfault ?_
        rw [hboolean, Checked.ensure_ok, if_pos hnothing]
        exact .refl _
      next hnothing =>
        cases hinside : (checkBlock tables.enter thenBody).fault with
        | some fault =>
          rw [bind_of_some hinside]
          change Again _ _ (checkStatement tables
            (.branch (checkExpression tables.chain condition).result
              (checkBlock tables.enter thenBody).result.1 elseBody))
          rw [checkStatement]
          refine hcondition.go And.left hfault ?_
          rw [hboolean, Checked.ensure_ok, hempty, if_neg hnothing]
          exact (hthen tables.enter).stop (fun h => h.2.1) hinside rfl
        | none =>
          rw [bind_eq_after hinside]
          change Again _ _ (checkStatement tables
            (.branch (checkExpression tables.chain condition).result
              (checkBlock tables.enter thenBody).result.1 (checkBlock _ elseBody).result.1))
          rw [checkStatement]
          refine hcondition.go And.left hfault ?_
          rw [hboolean, Checked.ensure_ok, hempty, if_neg hnothing]
          exact (hthen tables.enter).go (fun h => h.2.1) hinside
            ((helse _).map (fun h => h.2.2) rfl)

theorem again_blockCons {statement : Node} {rest : List Node}
    (hstatement : AgainStatement tables statement) (hrest : ∀ tables, AgainBlock tables rest) :
    AgainBlock tables (statement :: rest) := by
  unfold AgainBlock
  rw [checkBlock]
  cases hfault : (checkStatement tables statement).fault with
  | some fault =>
    rw [bind_of_some hfault]
    change Again _ _ (checkBlock tables ((checkStatement tables statement).result.1 :: rest))
    rw [checkBlock]
    exact hstatement.stop And.left hfault rfl
  | none =>
    rw [bind_eq_after hfault]
    change Again _ _ (checkBlock tables
      ((checkStatement tables statement).result.1 :: (checkBlock _ rest).result.1))
    rw [checkBlock]
    exact hstatement.go And.left hfault ((hrest _).map And.right rfl)

/-- Checks the value of a case, with `isLast` telling whether it is the last one. -/
def checkCaseValue (chain : StaticChain) (condition : Option Ty) (isLast : Bool) (value : Node) :
    Checked Node :=
  if value.isNull then
    if isLast then .done value else .refuse value .earlyDefault
  else if isLast then .refuse value .missingDefault
  else
    (checkExpression chain value).bind (fun value => value) fun value =>
    .ensure (requireAccepted condition value.type?) value fun _ => .done value

theorem again_caseValue (chain : StaticChain) (condition : Option Ty) (isLast : Bool)
    (value : Node) : let checked := checkCaseValue chain condition isLast value
      Again checked.result.IsSettled checked
        (checkCaseValue chain condition isLast checked.result) := by
  have hvalue := again_expression chain value
  have hnull := Node.isNull_eq_of_erase_eq (annotates_expression chain value)
  intro checked
  cases hisNull : value.isNull with
  | true =>
    have hsame : checked.result = value := by
      simp only [checked, checkCaseValue, hisNull, if_true]
      split <;> rfl
    rw [hsame]
    exact .refl _
  | false =>
    cases isLast with
    | true =>
      have hsame : checked.result = value := by
        simp [checked, checkCaseValue, hisNull, Checked.refuse]
      rw [hsame]
      exact .refl _
    | false =>
      have hexpression : ∀ {value : Node}, value.isNull = false →
          checkCaseValue chain condition false value =
            (checkExpression chain value).bind (fun value => value) fun value =>
              .ensure (requireAccepted condition value.type?) value fun _ => .done value := by
        intro value hisNull
        simp [checkCaseValue, hisNull]
      have hresult : checked.result = (checkExpression chain value).result := by
        simp only [checked, hexpression hisNull]
        exact Checked.result_bind fun _ => Checked.result_ensure fun _ => rfl
      rw [hresult, hexpression (hnull.trans hisNull)]
      simp only [checked, hexpression hisNull]
      exact hvalue.bind id

theorem checkCases_case (condition : Option Ty) (value : Node) (body rest : List Node) :
    checkCases tables condition (.case value body :: rest) =
      (checkCaseValue tables.chain condition rest.isEmpty value).bind
        (fun value => (.case value body :: rest, tables)) fun value =>
      (checkBlock tables.enter body).bind
        (fun (body, inside) => (.case value body :: rest, tables.resume inside))
        fun (body, inside) =>
      (checkCases (tables.resume inside) condition rest).map fun (rest, tables) =>
        (.case value body :: rest, tables) := by
  rw [checkCases]
  rfl

theorem checkCases_stray (condition : Option Ty) {node : Node} (rest : List Node)
    (h : node.kind? ≠ some .case) :
    checkCases tables condition (node :: rest) =
      (checkStrayCase tables.chain condition rest.isEmpty node).map fun node =>
        (node :: rest, tables) := by
  rw [checkCases]
  rintro value body rfl
  exact h rfl

theorem again_case (condition : Option Ty) (value : Node) {body rest : List Node}
    (hbody : AgainBlock tables.enter body) (hrest : ∀ tables, AgainCases tables condition rest) :
    AgainCases tables condition (.case value body :: rest) := by
  have hvalue := again_caseValue tables.chain condition rest.isEmpty value
  unfold AgainCases
  rw [checkCases_case]
  cases hv : (checkCaseValue tables.chain condition rest.isEmpty value).fault with
  | some fault =>
    rw [bind_of_some hv]
    change Again _ _ (checkCases tables condition
      (.case (checkCaseValue tables.chain condition rest.isEmpty value).result body :: rest))
    rw [checkCases_case]
    exact hvalue.stop (fun h => h.1.1) hv rfl
  | none =>
    rw [bind_eq_after hv]
    cases hb : (checkBlock tables.enter body).fault with
    | some fault =>
      rw [bind_of_some hb]
      change Again _ _ (checkCases tables condition
        (.case (checkCaseValue tables.chain condition rest.isEmpty value).result
          (checkBlock tables.enter body).result.1 :: rest))
      rw [checkCases_case]
      exact hvalue.go (fun h => h.1.1) hv (hbody.stop (fun h => h.1.2) hb rfl)
    | none =>
      rw [bind_eq_after hb]
      -- the last case stays the last one
      have hlast : (checkCases (tables.resume (checkBlock tables.enter body).result.2) condition
          rest).result.1.isEmpty = rest.isEmpty :=
        Node.isEmpty_eq_of_eraseAll_eq (annotates_cases _ condition rest)
      change Again _ _ (checkCases tables condition
        (.case (checkCaseValue tables.chain condition rest.isEmpty value).result
          (checkBlock tables.enter body).result.1 :: (checkCases _ condition rest).result.1))
      rw [checkCases_case, hlast]
      exact hvalue.go (fun h => h.1.1) hv
        (hbody.go (fun h => h.1.2) hb ((hrest _).map And.right rfl))

/-- A node of a kind that has a value has the value that it is given. -/
theorem Node.value?_withValue {node value : Node} (h : node.value? = some value) (other : Node) :
    (node.withValue other).value? = some other := by
  cases node with
  | declaration | assignment | case | ret | global => rfl
  | _ => cases h

theorem Node.withValue_withValue (node value other : Node) :
    (node.withValue value).withValue other = node.withValue other := by
  cases node <;> rfl

theorem Node.isSettled_of_withValue {node value : Node} (h : node.value? = some value)
    {other : Node} (hsettled : (node.withValue other).IsSettled) : other.IsSettled := by
  cases node with
  | assignment => exact hsettled.2
  | case => exact hsettled.1
  | declaration | ret | global => exact (hsettled :)
  | _ => cases h

theorem again_strayCase (chain : StaticChain) (condition : Option Ty) (isLast : Bool)
    (node : Node) : let checked := checkStrayCase chain condition isLast node
      Again checked.result.IsSettled checked
        (checkStrayCase chain condition isLast checked.result) := by
  intro checked
  have hstay : checked.result = node →
      Again checked.result.IsSettled checked
        (checkStrayCase chain condition isLast checked.result) := by
    intro h
    rw [h]
    exact .refl _
  -- nothing is written into the node before its value has been checked
  cases hvalue : node.value? with
  | none => exact hstay (by simp only [checked, checkStrayCase, hvalue]; rfl)
  | some value =>
    cases hisNull : value.isNull with
    | true =>
      refine hstay ?_
      simp only [checked, checkStrayCase, hvalue, hisNull, if_true]
      split <;> rfl
    | false =>
      cases isLast with
      | true => exact hstay (by simp [checked, checkStrayCase, hvalue, hisNull, Checked.refuse])
      | false =>
        have hagain := again_expression chain value
        have hexpression : ∀ {node value : Node}, node.value? = some value →
            value.isNull = false → checkStrayCase chain condition false node =
              (checkExpression chain value).bind (fun value => node.withValue value) fun value =>
                .ensure (requireAccepted condition value.type?) (node.withValue value) fun _ =>
                .misshapen (node.withValue value) .incomplete := by
          intro node value hvalue hisNull
          simp [checkStrayCase, hvalue, hisNull]
        have hresult : checked.result = node.withValue (checkExpression chain value).result := by
          simp only [checked, hexpression hvalue hisNull]
          exact Checked.result_bind fun _ => Checked.result_ensure fun _ => rfl
        have hnull := (Node.isNull_eq_of_erase_eq (annotates_expression chain value)).trans hisNull
        rw [hresult, hexpression (Node.value?_withValue hvalue _) hnull]
        simp only [checked, hexpression hvalue hisNull, Node.withValue_withValue]
        exact hagain.bind (Node.isSettled_of_withValue hvalue)

theorem again_stray (condition : Option Ty) {node : Node} (rest : List Node)
    (h : node.kind? ≠ some .case) : AgainCases tables condition (node :: rest) := by
  have hkind := Node.kind?_eq_of_erase_eq
    (annotates_strayCase tables.chain condition rest.isEmpty node)
  unfold AgainCases
  rw [checkCases_stray condition rest h]
  change Again _ _ (checkCases tables condition
    ((checkStrayCase tables.chain condition rest.isEmpty node).result :: rest))
  rw [checkCases_stray condition rest (hkind ▸ h)]
  exact (again_strayCase tables.chain condition rest.isEmpty node).map And.left rfl

end

mutual

theorem again_statement : ∀ (tables : Tables) (node : Node), AgainStatement tables node
  | _, .discard expression => again_discard expression
  | _, .declaration name typeName value binding => again_declaration name typeName value binding
  | _, .assignment receiver value => again_assignment receiver value
  | _, .branch condition thenBody elseBody =>
    again_branch condition (fun tables => again_block tables thenBody)
      fun tables => again_block tables elseBody
  | tables, .switch condition cases =>
    again_switch condition fun type => again_cases tables type cases
  | tables, .loop condition body => again_loop condition (again_block tables.enter body)
  | _, .ret value => again_ret value
  | _, .null | _, .literal .. | _, .group .. | _, .binary .. | _, .access .. | _, .call ..
  | _, .listLiteral .. | _, .case .. | _, .global .. | _, .function .. | _, .program .. => .refl _

theorem again_block : ∀ (tables : Tables) (nodes : List Node), AgainBlock tables nodes
  | _, [] => .refl _
  | tables, statement :: rest =>
    again_blockCons (again_statement tables statement) fun tables => again_block tables rest

theorem again_cases : ∀ (tables : Tables) (condition : Option Ty) (nodes : List Node),
    AgainCases tables condition nodes
  | _, _, [] => .refl _
  | tables, condition, node :: rest => by
    cases node with
    | case value body =>
      exact again_case condition value (again_block tables.enter body) fun tables =>
        again_cases tables condition rest
    | _ => exact again_stray condition rest nofun

end

end BlockScript

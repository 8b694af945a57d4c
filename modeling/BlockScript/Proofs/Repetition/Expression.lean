import BlockScript.Proofs.Analysis.Declaration
import BlockScript.Proofs.Repetition.Lists
import BlockScript.Proofs.Reordering.Analysis
/-!
# Checking expressions twice

A check writes annotations into the tree and does not read those that are there, with one exception:
the type of the elements of a list literal. So a check of the tree that an earlier check has left
behind finds the same again, takes the same notes, and leaves the same tree, even if the earlier
check has stopped at a fault.

The exception has an effect only if the values of a list literal have no types up to some value that
has one. The earlier check accepted them, because the list had no element type at that time, and the
later one refuses the first of them.

## Main definitions

* `Checked.Disowns` — a check that refuses a value without a type
* `Checked.Again` — a check that finds what another check has found

## Main results

* `again_values_settled` — the values of a list whose first value fits the type of the elements
* `again_expression` — a check of what the check of an expression has left behind
-/

namespace BlockScript

open Node (IsSettled AllSettled FirstFits)

namespace Node

variable {node node' : Node}

theorem kind?_eq_of_erase_eq (h : node.erase = node'.erase) : node.kind? = node'.kind? := by
  rw [← kind?_erase node, h, kind?_erase]

theorem isNull_eq_of_erase_eq (h : node.erase = node'.erase) : node.isNull = node'.isNull := by
  rw [← isNull_erase node, h, isNull_erase]

theorem length_eq_of_eraseAll_eq {nodes nodes' : List Node} (h : eraseAll nodes = eraseAll nodes') :
    nodes.length = nodes'.length := by
  rw [eraseAll_eq_map, eraseAll_eq_map] at h
  simpa using congrArg List.length h

end Node

namespace Checked

variable {α β γ : Type}

/-- A check with notes taken before it. -/
def after (notes : List (Int × String)) (x : Checked α) : Checked α :=
  { x with notes := notes ++ x.notes }

theorem bind_eq_after {x : Checked α} {soFar : α → β} {next : α → Checked β}
    (h : x.fault = none) : x.bind soFar next = (next x.result).after x.notes := by
  unfold bind
  rw [h]
  rfl

theorem ensure_ok {c : γ} {soFar : β} {next : γ → Checked β} :
    ensure (.ok c) soFar next = next c :=
  rfl

/-- A value that has no type is refused where a type is expected. -/
def Disowns (x : Checked α) : Prop :=
  ∃ ty, ty ≠ .any ∧ x.fault = some (.refused (.mismatch (some ty) none))

/-- A second check `y` finds what the first check `x` has found. If what the first one has left is
not settled, the second one may disown a value instead. -/
def Again (settled : Prop) (x y : Checked α) : Prop :=
  y = x ∨ ¬settled ∧ y.Disowns

namespace Again

variable {s t : Prop} {x y : Checked α} {soFar soFar' : α → β} {next' : α → Checked β}

theorem refl (x : Checked α) : Again s x x :=
  .inl rfl

/-- What does not depend on the tree is the same behind two checks that are. -/
theorem bind {next : α → Checked β} (h : Again s x y) (hst : t → s) :
    Again t (x.bind soFar next) (y.bind soFar next) := by
  rcases h with hsame | ⟨hs, ty, hty, hy⟩
  · exact .inl (by rw [hsame])
  · rw [bind_of_some hy]
    exact .inr ⟨mt hst hs, ty, hty, hy⟩

theorem map {f f' : α → β} (h : Again s x y) (hst : t → s) (hf : f' x.result = f x.result) :
    Again t (x.map f) (y.map f') := by
  rcases h with hsame | ⟨hs, hdisowns⟩
  · rw [hsame]
    exact .inl (by unfold Checked.map; rw [hf])
  · exact .inr ⟨mt hst hs, hdisowns⟩

/-- Where the first check has stopped, the second one stops too. -/
theorem stop {fault : AnalysisFault} (h : Again s x y) (hst : t → s) (hfault : x.fault = some fault)
    (hsoFar : soFar' x.result = soFar x.result) : Again t (x.map soFar) (y.bind soFar' next') := by
  rcases h with hsame | ⟨hs, ty, hty, hy⟩
  · rw [hsame, bind_of_some hfault]
    exact (refl x).map hst hsoFar
  · rw [bind_of_some hy]
    exact .inr ⟨mt hst hs, ty, hty, hy⟩

theorem after (notes : List (Int × String)) (h : Again s x y) :
    Again s (x.after notes) (y.after notes) :=
  h.imp_left fun hsame => by rw [hsame]

/-- Where the first check has gone on, the second one goes on too. -/
theorem go {z : Checked β} (h : Again s x y) (hst : t → s) (hfault : x.fault = none)
    (hz : Again t z (next' x.result)) : Again t (z.after x.notes) (y.bind soFar' next') := by
  rcases h with hsame | ⟨hs, ty, hty, hy⟩
  · rw [hsame, bind_eq_after hfault]
    exact hz.after x.notes
  · rw [bind_of_some hy]
    exact .inr ⟨mt hst hs, ty, hty, hy⟩

end Again

end Checked

open Checked (Again bind_of_some bind_eq_after)

/-! ### Expressions -/

section

variable {chain : StaticChain}

/-- What is left of an expression is found again. -/
def AgainExpression (chain : StaticChain) (node : Node) : Prop :=
  let checked := checkExpression chain node
  Again checked.result.IsSettled checked (checkExpression chain checked.result)

theorem again_group {inner : Node} {type : Option Ty} (h : AgainExpression chain inner) :
    AgainExpression chain (.group inner type) := by
  -- only a binary expression can be grouped, and its check leaves a binary expression behind
  have hkind := Node.kind?_eq_of_erase_eq (annotates_expression chain inner)
  unfold AgainExpression
  rw [checkExpression]
  split
  next hbinary =>
    cases hinner : (checkExpression chain inner).fault with
    | some fault =>
      rw [bind_of_some hinner]
      change Again _ _ (checkExpression chain (.group (checkExpression chain inner).result type))
      rw [checkExpression, if_pos (hkind.trans hbinary)]
      exact h.stop id hinner rfl
    | none =>
      rw [bind_eq_after hinner]
      change Again _ _ (checkExpression chain (.group (checkExpression chain inner).result _))
      rw [checkExpression, if_pos (hkind.trans hbinary)]
      exact h.go id hinner (.refl _)
  next hbinary =>
    change Again _ _ (checkExpression chain (.group inner type))
    rw [checkExpression, if_neg hbinary]
    exact .refl _

theorem again_binary {symbol : String} {left right : Node} {type : Option Ty}
    (hleft : AgainExpression chain left) (hright : AgainExpression chain right) :
    AgainExpression chain (.binary symbol left right type) := by
  unfold AgainExpression
  rw [checkExpression]
  cases hl : (checkExpression chain left).fault with
  | some fault =>
    rw [bind_of_some hl]
    change Again _ _
      (checkExpression chain (.binary symbol (checkExpression chain left).result right type))
    rw [checkExpression]
    exact hleft.stop And.left hl rfl
  | none =>
    rw [bind_eq_after hl]
    cases hr : (checkExpression chain right).fault with
    | some fault =>
      rw [bind_of_some hr]
      change Again _ _ (checkExpression chain (.binary symbol (checkExpression chain left).result
        (checkExpression chain right).result type))
      rw [checkExpression]
      exact hleft.go And.left hl (hright.stop And.right hr rfl)
    | none =>
      rw [bind_eq_after hr]
      -- both checks ask for the same operand types, and only the annotation of the node differs
      cases hty : symbolTy symbol (checkExpression chain left).result.type?
          (checkExpression chain right).result.type? with
      | error e =>
        change Again _ _ (checkExpression chain (.binary symbol (checkExpression chain left).result
          (checkExpression chain right).result type))
        rw [checkExpression]
        refine hleft.go And.left hl (hright.go And.right hr ?_)
        rw [hty]
        exact .refl _
      | ok ty =>
        change Again _ _ (checkExpression chain (.binary symbol (checkExpression chain left).result
          (checkExpression chain right).result (some ty)))
        rw [checkExpression]
        refine hleft.go And.left hl (hright.go And.right hr ?_)
        rw [hty]
        exact .refl _

/-- Checks an offset, which may be absent. -/
def checkOffset (chain : StaticChain) (offset : Node) : Checked Node :=
  if offset.isNull then .done offset else checkExpression chain offset

/-- Checks an access behind its offset. -/
def checkFound (chain : StaticChain) (name : String) (offset : Node) (type : Option Ty)
    (binding : Option Binding) : Checked Node :=
  let unbound := Node.access name offset type binding
  if !offset.isNull && offset.type? != some .integer then
    .refuse unbound (.offsetNotInteger offset.type?)
  else
    .ensure (StaticChain.findVariable chain name) unbound fun found =>
    if !offset.isNull && !found.isList then .refuse unbound (.notAList name)
    else if offset.isNull && found.isList then .refuse unbound (.listWithoutOffset name)
    else .done (.access name offset found.type (some found))

theorem checkExpression_access (name : String) (offset : Node) (type : Option Ty)
    (binding : Option Binding) :
    checkExpression chain (.access name offset type binding) =
      (checkOffset chain offset).bind (fun offset => .access name offset type binding)
        fun offset => checkFound chain name offset type binding := by
  rw [checkExpression]
  rfl

/-- Behind its offset an access has no annotation that is read. -/
theorem checkFound_again (chain : StaticChain) (name : String) (offset : Node) (type : Option Ty)
    (binding : Option Binding) : ∃ type' binding',
      (checkFound chain name offset type binding).result = .access name offset type' binding' ∧
        checkFound chain name offset type' binding' =
          checkFound chain name offset type binding := by
  unfold checkFound
  split
  · exact ⟨_, _, rfl, rfl⟩
  · cases StaticChain.findVariable chain name with
    | error e => exact ⟨_, _, rfl, rfl⟩
    | ok found =>
      simp only [Checked.ensure]
      split
      · exact ⟨_, _, rfl, rfl⟩
      · split
        · exact ⟨_, _, rfl, rfl⟩
        · exact ⟨_, _, rfl, rfl⟩

theorem again_access {name : String} {offset : Node} {type : Option Ty} {binding : Option Binding}
    (hoffset : AgainExpression chain offset) :
    AgainExpression chain (.access name offset type binding) := by
  have hchecked : Again (checkOffset chain offset).result.IsSettled (checkOffset chain offset)
      (checkOffset chain (checkOffset chain offset).result) := by
    unfold checkOffset
    split
    next hnull =>
      change Again _ _ (if offset.isNull then _ else _)
      rw [if_pos hnull]
      exact .refl _
    next hnull =>
      rw [Node.isNull_eq_of_erase_eq (annotates_expression chain offset), if_neg hnull]
      exact hoffset
  unfold AgainExpression
  rw [checkExpression_access]
  cases hfault : (checkOffset chain offset).fault with
  | some fault =>
    rw [bind_of_some hfault]
    change Again _ _
      (checkExpression chain (.access name (checkOffset chain offset).result type binding))
    rw [checkExpression_access]
    exact hchecked.stop id hfault rfl
  | none =>
    rw [bind_eq_after hfault]
    obtain ⟨type', binding', hresult, hagain⟩ :=
      checkFound_again chain name (checkOffset chain offset).result type binding
    change Again (checkFound ..).result.IsSettled _ (checkExpression chain (checkFound ..).result)
    rw [hresult, checkExpression_access]
    refine hchecked.go id hfault ?_
    rw [hagain]
    exact .refl _

theorem again_call {name : String} {arguments : List Node} {type : Option Ty}
    {callee : Option Signature}
    (h : ∀ types, let checked := checkArguments chain arguments types
      Again (AllSettled checked.result) checked (checkArguments chain checked.result types)) :
    AgainExpression chain (.call name arguments type callee) := by
  unfold AgainExpression
  rw [checkExpression]
  cases hfound : StaticChain.findFunction chain name arguments.length with
  | error e =>
    change Again _ _ (checkExpression chain (.call name arguments type callee))
    rw [checkExpression, hfound]
    exact .refl _
  | ok found =>
    simp only [Checked.ensure]
    -- the function is looked up by the number of arguments, which stays
    have hlength : (checkArguments chain arguments found.parameters).result.length =
        arguments.length :=
      Node.length_eq_of_eraseAll_eq (annotates_arguments chain arguments found.parameters)
    have hcall := h found.parameters
    cases hfault : (checkArguments chain arguments found.parameters).fault with
    | some fault =>
      rw [bind_of_some hfault]
      change Again _ _ (checkExpression chain
        (.call name (checkArguments chain arguments found.parameters).result type callee))
      rw [checkExpression, hlength, hfound, Checked.ensure_ok]
      exact hcall.stop id hfault rfl
    | none =>
      rw [bind_eq_after hfault]
      change Again _ _ (checkExpression chain
        (.call name (checkArguments chain arguments found.parameters).result _ _))
      rw [checkExpression, hlength, hfound, Checked.ensure_ok]
      exact hcall.go id hfault (.refl _)

theorem again_arguments {nodes : List Node} (hnodes : ∀ node ∈ nodes, AgainExpression chain node) :
    ∀ types : List Ty, let checked := checkArguments chain nodes types
      Again (AllSettled checked.result) checked (checkArguments chain checked.result types) := by
  induction nodes with
  | nil => exact fun _ => .refl _
  | cons node rest ih =>
    obtain ⟨hnode, hrest⟩ := List.forall_mem_cons.mp hnodes
    intro types
    cases types with
    | nil => exact .refl _
    | cons type types =>
      dsimp only
      rw [checkArguments]
      cases hfault : (checkExpression chain node).fault with
      | some fault =>
        rw [bind_of_some hfault]
        change Again _ _
          (checkArguments chain ((checkExpression chain node).result :: rest) (type :: types))
        rw [checkArguments]
        exact hnode.stop And.left hfault rfl
      | none =>
        rw [bind_eq_after hfault]
        cases haccepted : requireAccepted (some type) (checkExpression chain node).result.type? with
        | error e =>
          change Again _ _
            (checkArguments chain ((checkExpression chain node).result :: rest) (type :: types))
          rw [checkArguments]
          refine hnode.go And.left hfault ?_
          rw [haccepted]
          exact .refl _
        | ok accepted =>
          change Again _ _ (checkArguments chain ((checkExpression chain node).result ::
            (checkArguments chain rest types).result) (type :: types))
          rw [checkArguments]
          refine hnode.go And.left hfault ?_
          rw [haccepted, Checked.ensure_ok]
          exact (ih hrest types).map And.right rfl

/-- The values of a list whose elements have the type that they had before. -/
theorem again_values {nodes : List Node} (hnodes : ∀ node ∈ nodes, AgainExpression chain node) :
    ∀ type : Option Ty, let checked := checkValues chain nodes type
      Again (AllSettled checked.result.1) checked (checkValues chain checked.result.1 type) := by
  -- along the values, with the element type that the values in front have come to
  induction nodes with
  | nil => exact fun _ => .refl _
  | cons node rest ih =>
    obtain ⟨hnode, hrest⟩ := List.forall_mem_cons.mp hnodes
    intro type
    dsimp only
    rw [checkValues]
    cases hfault : (checkExpression chain node).fault with
    | some fault =>
      rw [bind_of_some hfault]
      change Again _ _ (checkValues chain ((checkExpression chain node).result :: rest) type)
      rw [checkValues]
      exact hnode.stop And.left hfault rfl
    | none =>
      rw [bind_eq_after hfault]
      cases haccepted : requireAccepted (type.or (checkExpression chain node).result.type?)
          (checkExpression chain node).result.type? with
      | error e =>
        simp only [haccepted]
        change Again _ _ (checkValues chain ((checkExpression chain node).result :: rest) type)
        rw [checkValues]
        refine hnode.go And.left hfault ?_
        simp only [haccepted]
        exact .refl _
      | ok accepted =>
        simp only [haccepted]
        change Again _ _ (checkValues chain ((checkExpression chain node).result ::
          (checkValues chain rest _).result.1) type)
        rw [checkValues]
        refine hnode.go And.left hfault ?_
        simp only [haccepted, Checked.ensure_ok]
        exact (ih hrest _).map And.right rfl

/-- A list whose elements have a type keeps it. -/
theorem leaves_values_of_some (ty : Ty) (nodes : List Node) :
    (checkValues chain nodes (some ty)).Leaves fun outcome => outcome.2 = some ty := by
  induction nodes with
  | nil => rfl
  | cons node rest ih =>
    rw [checkValues]
    refine (Checked.leaves_anything _).bind (fun _ _ => rfl) fun _ _ => .ensure rfl fun _ => ?_
    exact ih.map fun _ h => h

/-- The values of a list that has come to take anything. -/
theorem again_values_any {nodes : List Node}
    (hnodes : ∀ node ∈ nodes, AgainExpression chain node) :
    ∀ type : Option Ty, let checked := checkValues chain nodes type
      checked.result.2 = some .any →
        Again (AllSettled checked.result.1) checked
          (checkValues chain checked.result.1 (some .any)) := by
  -- whatever the first check has asked for at a value, the second one asks for nothing
  have hany : ∀ type, requireAccepted (some .any) type = .ok () := fun type =>
    requireAccepted_eq_ok_iff.mpr (Ty.accepts_any type)
  induction nodes with
  | nil =>
    intro type checked htype
    obtain rfl : type = some .any := htype
    exact .refl _
  | cons node rest ih =>
    obtain ⟨hnode, hrest⟩ := List.forall_mem_cons.mp hnodes
    intro type
    dsimp only
    rw [checkValues]
    cases hfault : (checkExpression chain node).fault with
    | some fault =>
      rw [bind_of_some hfault]
      intro htype
      obtain rfl : type = some .any := htype
      change Again _ _ (checkValues chain ((checkExpression chain node).result :: rest) _)
      rw [checkValues]
      exact hnode.stop And.left hfault rfl
    | none =>
      rw [bind_eq_after hfault]
      cases haccepted : requireAccepted (type.or (checkExpression chain node).result.type?)
          (checkExpression chain node).result.type? with
      | error e =>
        simp only [haccepted]
        intro htype
        rw [show type.or _ = some Ty.any from htype, hany] at haccepted
        cases haccepted
      | ok accepted =>
        simp only [haccepted, Checked.ensure_ok]
        intro htype
        change Again _ _ (checkValues chain ((checkExpression chain node).result ::
          (checkValues chain rest _).result.1) _)
        rw [checkValues]
        refine hnode.go And.left hfault ?_
        simp only [Option.some_or, hany, Checked.ensure_ok]
        exact (ih hrest _ htype).map And.right rfl

theorem requireAccepted_none {ty : Ty} (h : ty ≠ .any) :
    requireAccepted (some ty) none = .error (.mismatch (some ty) none) := by
  simp [requireAccepted, Ty.accepts, h]

/-- The values of a list whose first value decides on the type. If that value has no type, but the
list has got one from the values behind it, the value is disowned the next time. -/
theorem again_values_first {value : Node} {rest : List Node} {ty : Ty} (hany : ty ≠ .any)
    (hvalue : AgainExpression chain value) (hrest : ∀ node ∈ rest, AgainExpression chain node)
    (hfinal : (checkValues chain (value :: rest) none).result.2 = some ty) :
    let checked := checkValues chain (value :: rest) none
    Again (FirstFits checked.result.2 checked.result.1 ∧ AllSettled checked.result.1) checked
      (checkValues chain checked.result.1 checked.result.2) := by
  intro checked
  rw [hfinal]
  revert checked
  dsimp only
  rw [checkValues] at hfinal ⊢
  cases hfault : (checkExpression chain value).fault with
  | some fault =>
    rw [bind_of_some hfault] at hfinal
    cases hfinal
  | none =>
    rw [bind_eq_after hfault] at hfinal ⊢
    have haccepted : requireAccepted (checkExpression chain value).result.type?
        (checkExpression chain value).result.type? = .ok () :=
      requireAccepted_eq_ok_iff.mpr (Ty.accepts_self _)
    simp only [Option.none_or, haccepted, Checked.ensure_ok] at hfinal ⊢
    change Again _ _ (checkValues chain ((checkExpression chain value).result ::
      (checkValues chain rest (checkExpression chain value).result.type?).result.1) (some ty))
    rw [checkValues]
    refine hvalue.go (fun h => h.2.1) hfault ?_
    cases htype : (checkExpression chain value).result.type? with
    -- a value without a type was accepted, because no type was asked for, and is refused now
    | none =>
      simp only [Option.some_or, requireAccepted_none hany]
      refine .inr ⟨fun h => ?_, ty, hany, rfl⟩
      have hfits : Ty.accepts (some ty) (checkExpression chain value).result.type? = true :=
        h.1 ty rfl _ rfl
      rw [htype] at hfits
      simp [Ty.accepts, hany] at hfits
    -- a value with a type has decided on the type of the list, and fits it
    | some own =>
      rw [htype] at hfinal haccepted
      obtain rfl : own = ty :=
        Option.some.inj ((leaves_values_of_some own rest).symm.trans hfinal)
      simp only [Option.some_or, haccepted, Checked.ensure_ok]
      exact (again_values hrest (some own)).map (fun h => h.2.2) rfl

theorem again_values_settled {values : List Node} {type : Option Ty}
    (hvalues : ∀ value ∈ values, AgainExpression chain value) :
    let checked := checkValues chain values type
    Again (FirstFits checked.result.2 checked.result.1 ∧ AllSettled checked.result.1) checked
      (checkValues chain checked.result.1 checked.result.2) := by
  intro checked
  by_cases hkept : checked.result.2 = type
  · rw [hkept]
    exact (again_values hvalues type).imp_right fun h => ⟨mt And.right h.1, h.2⟩
  · -- the list has got its type from its values
    cases type with
    | some ty => exact absurd (leaves_values_of_some ty values) hkept
    | none =>
      obtain ⟨ty, hty⟩ := Option.ne_none_iff_exists'.mp hkept
      by_cases hany : ty = .any
      · subst hany
        rw [hty]
        exact (again_values_any hvalues none hty).imp_right fun h => ⟨mt And.right h.1, h.2⟩
      · cases values with
        | nil => cases hty
        | cons value rest =>
          obtain ⟨hvalue, hrest⟩ := List.forall_mem_cons.mp hvalues
          exact again_values_first hany hvalue hrest hty

theorem again_listLiteral {values : List Node} {type : Option Ty}
    (hvalues : ∀ value ∈ values, AgainExpression chain value) :
    AgainExpression chain (.listLiteral values type) := by
  unfold AgainExpression
  rw [checkExpression]
  change Again _ _ (checkExpression chain (.listLiteral (checkValues chain values type).result.1
    (checkValues chain values type).result.2))
  rw [checkExpression]
  exact (again_values_settled hvalues).map id rfl

end

mutual

theorem again_expression (chain : StaticChain) : ∀ node : Node, AgainExpression chain node
  | .literal .. => .refl _
  | .group inner _ => again_group (again_expression chain inner)
  | .binary _ left right _ =>
    again_binary (again_expression chain left) (again_expression chain right)
  | .access _ offset _ _ => again_access (again_expression chain offset)
  | .call _ arguments _ _ => again_call (again_arguments (again_expressions chain arguments))
  | .listLiteral values _ => again_listLiteral (again_expressions chain values)
  | .null | .discard .. | .declaration .. | .assignment .. | .branch .. | .case .. | .switch ..
  | .loop .. | .ret .. | .global .. | .function .. | .program .. => .refl _

theorem again_expressions (chain : StaticChain) :
    ∀ nodes : List Node, ∀ node ∈ nodes, AgainExpression chain node
  | [] => List.forall_mem_nil _
  | node :: rest =>
    List.forall_mem_cons.mpr ⟨again_expression chain node, again_expressions chain rest⟩

end

end BlockScript

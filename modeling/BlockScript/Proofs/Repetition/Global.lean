import BlockScript.Proofs.Repetition.Statement
/-!
# Checking the parts of a program twice

The value of a global list takes the declared type as the type of its elements before it is checked,
or no type if none is declared. So it forgets what an earlier check has left there, and is not among
the list literals that have to be settled. A function that gets its signature gets the same one with
and without annotations in its body.

## Main definitions

* `Node.forgetElementTy` — a global variable without the type of the elements of its list
* `Node.withBody` — a function with another body

## Main results

* `again_global`, `again_signature`, `again_function` — the parts of a program
* `again_each` — parts of one kind in a row
-/

namespace BlockScript

open Checked (Again bind_of_some bind_eq_after)
open Node (AllSettled)

namespace Node

/-- A global variable without the type of the elements of its list. -/
def forgetElementTy : Node → Node
  | global name mutable typeName value isList binding =>
    global name mutable typeName (withElementTy none value) isList binding
  | declaration name typeName value binding =>
    declaration name typeName (withElementTy none value) binding
  | other => other

/-- A function with another body. -/
def withBody (body : List Node) : Node → Node
  | function name parameters parameterTypes resultType _ signature =>
    function name parameters parameterTypes resultType body signature
  | other => other

end Node

/-! ### Global variables -/

theorem withElementTy_of_kind {node : Node} (h : node.kind? ≠ some .listLiteral)
    (declared : Option Ty) : withElementTy declared node = node := by
  cases node with
  | listLiteral => exact absurd rfl h
  | _ => rfl

theorem again_globalInitial (chain : StaticChain) (declared : Option Ty) (value : Node) :
    let checked := checkInitial chain declared (withElementTy declared value)
    Again (withElementTy none checked.result.1).IsSettled checked
      (checkInitial chain declared (withElementTy declared checked.result.1)) := by
  intro checked
  -- the declared type replaces what the first check has left in a list, and nothing else
  by_cases hkind : value.kind? = some .listLiteral
  · cases value with
    | listLiteral values type =>
      have hvalues : Again _ (checkValues chain values declared)
          (checkValues chain (checkValues chain values declared).result.1 declared) :=
        again_values (again_expressions chain values) declared
      have hresult : checked.result.1 = .listLiteral (checkValues chain values declared).result.1
          (checkValues chain values declared).result.2 := by
        refine (result_initial chain declared rfl).trans ?_
        rw [withElementTy, checkExpression]
        rfl
      rw [hresult]
      refine Again.initial declared rfl rfl ?_
      simp only [withElementTy, checkExpression]
      exact hvalues.map And.right rfl
    | _ => cases hkind
  · have hsame : checked = checkInitial chain declared value := by
      simp only [checked, withElementTy_of_kind hkind]
    have hkind' : checked.result.1.kind? ≠ some .listLiteral := by
      rw [hsame, Node.kind?_eq_of_erase_eq (annotates_initial chain declared value)]
      exact hkind
    rw [withElementTy_of_kind hkind', withElementTy_of_kind hkind', hsame]
    exact again_initial chain declared value

section

variable {tables : Tables}

/-- What is left of a global variable is found again. -/
def AgainGlobal (tables : Tables) (node : Node) : Prop :=
  let checked := checkGlobal tables node
  Again checked.result.1.forgetElementTy.IsSettled checked (checkGlobal tables checked.result.1)

/-- A node that is checked like a global variable, whatever its annotation is, if what comes behind
its value does not read the annotation. -/
theorem again_globalValue {name : String} {typeName : Option String} {value : Node}
    {binding : Option Binding} (build : Node → Option Binding → Node)
    (next : Option Binding → Node → Option Ty → Checked (Node × Tables))
    (hcheck : ∀ value binding, checkGlobal tables (build value binding) =
      checkGlobalValue tables name typeName value (build · binding) (next binding))
    (hnext : ∀ value ty, ∃ binding', (next binding value ty).result.1 = build value binding' ∧
      next binding' value ty = next binding value ty)
    (hbuild : ∀ value binding, (build value binding).forgetElementTy.IsSettled →
      (withElementTy none value).IsSettled) :
    AgainGlobal tables (build value binding) := by
  unfold AgainGlobal
  rw [hcheck, checkGlobalValue]
  split
  next hbare =>
    change Again _ _ (checkGlobal tables (build value binding))
    rw [hcheck, checkGlobalValue, if_pos hbare]
    exact .refl _
  next hbare =>
    cases hresolve : resolveTy typeName with
    | error e =>
      change Again _ _ (checkGlobal tables (build value binding))
      rw [hcheck, checkGlobalValue, if_neg hbare, hresolve]
      exact .refl _
    | ok declared =>
      rw [Checked.ensure_ok]
      have hinitial := again_globalInitial tables.chain declared value
      have hnull : (checkInitial tables.chain declared
          (withElementTy declared value)).result.1.isNull = value.isNull :=
        Node.isNull_eq_of_erase_eq ((annotates_initial tables.chain declared _).trans
          (Node.erase_withElementTy declared value))
      cases hfault : (checkInitial tables.chain declared (withElementTy declared value)).fault with
      | some fault =>
        rw [bind_of_some hfault]
        change Again _ _ (checkGlobal tables (build
          (checkInitial tables.chain declared (withElementTy declared value)).result.1 binding))
        rw [hcheck, checkGlobalValue, hnull, if_neg hbare, hresolve, Checked.ensure_ok]
        exact hinitial.stop (hbuild _ _) hfault rfl
      | none =>
        rw [bind_eq_after hfault]
        obtain ⟨binding', hresult, hagain⟩ :=
          hnext (checkInitial tables.chain declared (withElementTy declared value)).result.1
            (checkInitial tables.chain declared (withElementTy declared value)).result.2
        change Again (Node.IsSettled (Node.forgetElementTy (next binding _ _).result.1)) _
          (checkGlobal tables (next binding _ _).result.1)
        rw [hresult, hcheck, checkGlobalValue, hnull, if_neg hbare, hresolve, Checked.ensure_ok]
        refine hinitial.go (hbuild _ _) hfault ?_
        change Again _ _ (next binding' _ _)
        rw [hagain]
        exact .refl _

theorem again_global (tables : Tables) (node : Node) : AgainGlobal tables node := by
  cases node with
  | global name isMutable typeName value isList binding =>
    let build (value : Node) (binding : Option Binding) : Node :=
      .global name isMutable typeName value isList binding
    let next (binding : Option Binding) (value : Node) (ty : Option Ty) : Checked (Node × Tables) :=
      .ensure (tables.declare name ty isMutable isList) (build value binding, tables) fun entry =>
      .noted 2 ("global " ++ name ++ ": " ++ Ty.label ty) (build value (some entry.1), entry.2)
    refine again_globalValue build next (fun _ _ => rfl) ?_ fun _ _ h => h
    intro value ty
    cases hdeclare : tables.declare name ty isMutable isList with
    | error e => exact ⟨binding, by simp only [next, hdeclare]; rfl, rfl⟩
    | ok entry =>
      refine ⟨some entry.1, ?_⟩
      simp only [next, hdeclare]
      exact ⟨rfl, rfl⟩
  | declaration name typeName value binding =>
    let build (value : Node) (binding : Option Binding) : Node :=
      .declaration name typeName value binding
    let next (binding : Option Binding) (value : Node) (_ : Option Ty) : Checked (Node × Tables) :=
      .misshapen (build value binding, tables) .incomplete
    exact again_globalValue build next (fun _ _ => rfl) (fun _ _ => ⟨binding, rfl, rfl⟩)
      fun _ _ h => h
  | _ => exact .refl _

/-! ### Functions -/

/-- What is left of a function behind its declaration is declared in the same way. -/
theorem again_signature (tables : Tables) (node : Node) :
    declareFunction tables (declareFunction tables node).result.1 =
      declareFunction tables node := by
  cases node with
  | function name parameters parameterTypes resultType body signature =>
    rw [declareFunction]
    cases hfound : signatureOf name parameterTypes resultType with
    | error e =>
      change declareFunction tables
        (.function name parameters parameterTypes resultType body signature) = _
      rw [declareFunction, hfound]
    | ok found =>
      rw [Checked.ensure_ok]
      cases hdeclare : tables.declareFunction found with
      | error e =>
        change declareFunction tables
          (.function name parameters parameterTypes resultType body signature) = _
        rw [declareFunction, hfound, Checked.ensure_ok, hdeclare]
      | ok after =>
        change declareFunction tables
          (.function name parameters parameterTypes resultType body (some found)) = _
        rw [declareFunction, hfound, Checked.ensure_ok, hdeclare]
        rfl
  | _ => rfl

/-- Its body is not looked at when a function is declared. -/
theorem declareFunction_withBody {tables : Tables} {node : Node}
    (h : (declareFunction tables node).fault = none) (body : List Node) :
    declareFunction tables ((declareFunction tables node).result.1.withBody body) =
      (declareFunction tables node).map fun outcome => (outcome.1.withBody body, outcome.2) := by
  cases node with
  | function name parameters parameterTypes resultType own signature =>
    rw [declareFunction] at h ⊢
    cases hfound : signatureOf name parameterTypes resultType with
    | error e =>
      rw [hfound] at h
      cases h
    | ok found =>
      rw [hfound, Checked.ensure_ok] at h
      rw [Checked.ensure_ok]
      cases hdeclare : tables.declareFunction found with
      | error e =>
        rw [hdeclare] at h
        cases h
      | ok after =>
        change declareFunction tables
          (.function name parameters parameterTypes resultType body (some found)) = _
        rw [declareFunction, hfound, Checked.ensure_ok, hdeclare]
        rfl
  | _ => cases h

/-- What is left of a function is found again. -/
def AgainFunction (tables : Tables) (node : Node) : Prop :=
  let checked := checkFunction tables node
  Again checked.result.1.IsSettled checked (checkFunction tables checked.result.1)

theorem again_function (tables : Tables) (node : Node) : AgainFunction tables node := by
  cases node with
  | function name parameters parameterTypes resultType body signature =>
    cases signature with
    | none => exact .refl _
    | some signature =>
      unfold AgainFunction
      rw [checkFunction]
      cases hinside : bodyTables tables signature parameters with
      | error e =>
        change Again _ _ (checkFunction tables
          (.function name parameters parameterTypes resultType body (some signature)))
        rw [checkFunction, hinside]
        exact .refl _
      | ok inside =>
        rw [Checked.ensure_ok]
        change Again _ _ (checkFunction tables (.function name parameters parameterTypes resultType
          (checkBlock inside body).result.1 (some signature)))
        rw [checkFunction, hinside, Checked.ensure_ok]
        exact (again_block inside body).map id rfl
  | _ => exact .refl _

/-- A function is left behind with another body, if with anything else. -/
theorem leaves_withBody (tables : Tables) (node : Node) :
    (checkFunction tables node).Leaves fun outcome => ∃ body, outcome.1 = node.withBody body := by
  cases node with
  | function name parameters parameterTypes resultType body signature =>
    cases signature with
    | none => exact ⟨body, rfl⟩
    | some signature =>
      rw [checkFunction]
      exact .ensure ⟨body, rfl⟩ fun inside =>
        (Checked.leaves_anything _).map fun outcome _ => ⟨outcome.1, rfl⟩
  | _ => exact ⟨[], rfl⟩

/-! ### Parts in a row -/

theorem again_each {check : Tables → Node → Checked (Node × Tables)} {settled : Node → Prop}
    (hcheck : ∀ tables node, let checked := check tables node
      Again (settled checked.result.1) checked (check tables checked.result.1))
    (nodes : List Node) : ∀ tables : Tables, let checked := checkEach check tables nodes
      Again (∀ node ∈ checked.result.1, settled node) checked
        (checkEach check tables checked.result.1) := by
  induction nodes with
  | nil => exact fun _ => .refl _
  | cons node rest ih =>
    intro tables
    dsimp only
    rw [checkEach]
    cases hfault : (check tables node).fault with
    | some fault =>
      rw [bind_of_some hfault]
      change Again _ _ (checkEach check tables ((check tables node).result.1 :: rest))
      rw [checkEach]
      exact (hcheck tables node).stop (fun h => h _ List.mem_cons_self) hfault rfl
    | none =>
      rw [bind_eq_after hfault]
      change Again _ _ (checkEach check tables
        ((check tables node).result.1 :: (checkEach check _ rest).result.1))
      rw [checkEach]
      refine (hcheck tables node).go (fun h => h _ List.mem_cons_self) hfault ?_
      exact (ih _).map (fun h node hnode => h node (List.mem_cons_of_mem _ hnode)) rfl

/-- Functions with other bodies are declared in the same way. -/
theorem declareFunctions_withBody {nodes : List Node} : ∀ {tables : Tables} {results : List Node},
    (checkEach declareFunction tables nodes).fault = none →
    List.Forall₂ (fun node result => ∃ body, result = node.withBody body)
      (checkEach declareFunction tables nodes).result.1 results →
    checkEach declareFunction tables results =
      (checkEach declareFunction tables nodes).map fun outcome => (results, outcome.2) := by
  -- along both rows of functions, with the tables that the functions in front have been added to
  induction nodes with
  | nil =>
    intro tables results _ hresults
    cases hresults
    rfl
  | cons node rest ih =>
    intro tables results hfault hresults
    rw [checkEach] at hfault hresults ⊢
    cases hnode : (declareFunction tables node).fault with
    | some fault =>
      rw [bind_of_some hnode] at hfault
      cases hnode.symm.trans hfault
    | none =>
      rw [bind_eq_after hnode] at hfault hresults ⊢
      cases hresults with
      | cons hfirst hothers =>
        obtain ⟨body, rfl⟩ := hfirst
        have hsame := declareFunction_withBody hnode body
        rw [checkEach, bind_eq_after (by rw [hsame]; exact hnode), hsame]
        have hbehind := ih hfault hothers
        change Checked.after _
          ((checkEach declareFunction (declareFunction tables node).result.2 _).map _) = _
        rw [hbehind]
        rfl

end

end BlockScript

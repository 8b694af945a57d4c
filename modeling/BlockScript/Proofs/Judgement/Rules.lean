import BlockScript.Node
import BlockScript.Proofs.Judgement.Environment
import Mathlib.Data.List.Forall2
/-!
# Typing rules

Which programs are well typed. The rules lead from the environment of a phrase to the environment
behind it; they do not say in which order anything is looked at, and nothing in them changes.

The same rules serve for trees with and without annotations: they come with a relation between the
annotation of an expression and its type. `Unread` lets every annotation pass, and `Exact` asks for
the type itself.

## Main definitions

* `Judgement.HasTy`, `Judgement.Fit` — expressions, and arguments for parameters
* `Judgement.Statement`, `Judgement.Block`, `Judgement.Cases` — statements
* `Judgement.Global`, `Judgement.Header`, `Judgement.Function` — the parts of a program
* `Judgement.Program` — whole programs

## Main results

* `Judgement.HasTy.unique` — an expression has one type at most
* `Judgement.HasTy.erase`, `Judgement.Statement.erase` — annotations may be left out
-/

namespace BlockScript

namespace Judgement

/-- Any annotation will do. -/
def Unread : Option Ty → Ty → Prop :=
  fun _ _ => True

/-- An expression is annotated with its type. -/
def Exact : Option Ty → Ty → Prop :=
  fun annotation ty => annotation = some ty

section

variable (Marks : Option Ty → Ty → Prop)

/-! ### Expressions -/

mutual

/-- An expression has a type in an environment. -/
inductive HasTy (Γ : Environment) : Node → Ty → Prop
  | literal {value note} : Marks note value.ty → HasTy Γ (.literal value note) value.ty
  | group {symbol left right own note ty} : HasTy Γ (.binary symbol left right own) ty →
      Marks note ty → HasTy Γ (.group (.binary symbol left right own) note) ty
  | binary {op left right note a b ty} : HasTy Γ left a → HasTy Γ right b →
      OperationTy op a b ty → Marks note ty → HasTy Γ (.binary op.text left right note) ty
  | access {name note binding v} : Γ.var? name = some v → v.isList = false →
      Marks note v.type → HasTy Γ (.access name .null note binding) v.type
  | element {name offset note binding v} : HasTy Γ offset .integer →
      Γ.var? name = some v → v.isList = true → Marks note v.type →
      HasTy Γ (.access name offset note binding) v.type
  | call {name arguments note callee f} : Γ.function? name arguments.length = some f →
      Fit Γ arguments f.parameters → Marks note f.result →
      HasTy Γ (.call name arguments note callee) f.result

/-- Arguments can be stored in parameters of the given types, one in each. -/
inductive Fit (Γ : Environment) : List Node → List Ty → Prop
  | nil : Fit Γ [] []
  | cons {argument rest own ty types} : HasTy Γ argument own → Assignable ty own →
      Fit Γ rest types → Fit Γ (argument :: rest) (ty :: types)

end

/-- A value can be stored where a type is expected. -/
def Suits (Γ : Environment) (ty : Ty) (value : Node) : Prop :=
  ∃ own, HasTy Marks Γ value own ∧ Assignable ty own

/-! ### Variables -/

/-- The type that is named, or another one if none is. -/
inductive NamedTy (otherwise : Ty) : Option String → Ty → Prop
  | absent : NamedTy otherwise none otherwise
  | present {text} {ty : Ty} : ty.name = text → NamedTy otherwise (some text) ty

/-- The type of a variable: the one that is named, which the initial value must suit, or else that
of the initial value. -/
inductive Initial (Γ : Environment) : Option String → Node → Ty → Prop
  | empty {text} {ty : Ty} : ty.name = text → Initial Γ (some text) .null ty
  | checked {text value} {ty : Ty} : ty.name = text → Suits Marks Γ ty value →
      Initial Γ (some text) value ty
  | inferred {ty value} : HasTy Marks Γ value ty → Initial Γ none value ty

/-- The type of the elements of a list: the one that is named, or else that of the first value; all
values must suit it. -/
inductive Elements (Γ : Environment) : Option String → List Node → Ty → Prop
  | checked {text values} {ty : Ty} : ty.name = text →
      (∀ value ∈ values, Suits Marks Γ ty value) → Elements Γ (some text) values ty
  | inferred {ty first rest} : HasTy Marks Γ first ty →
      (∀ value ∈ rest, Suits Marks Γ ty value) → Elements Γ none (first :: rest) ty

/-! ### Statements -/

mutual

/-- A statement, with the environment behind it. -/
inductive Statement : Environment → Node → Environment → Prop
  | discard {Γ name arguments note callee ty} :
      HasTy Marks Γ (.call name arguments note callee) ty →
      Statement Γ (.discard (.call name arguments note callee)) Γ
  | declaration {Γ name typeName value binding ty} : Initial Marks Γ typeName value ty →
      name ∉ Γ.taken →
      Statement Γ (.declaration name typeName value binding) (Γ.declare name ⟨ty, true, false⟩)
  | assignment {Γ name offset note binding value v ty} :
      HasTy Marks Γ (.access name offset note binding) ty → Γ.var? name = some v →
      v.mutable = true → Suits Marks Γ ty value →
      Statement Γ (.assignment (.access name offset note binding) value) Γ
  | branch {Γ condition thenBody elseBody} : HasTy Marks Γ condition .boolean →
      thenBody ≠ [] → Block Γ.enter thenBody → Block Γ.enter elseBody →
      Statement Γ (.branch condition thenBody elseBody) Γ
  | switch {Γ condition cases ty} : HasTy Marks Γ condition ty → Cases Γ ty cases →
      Statement Γ (.switch condition cases) Γ
  | loop {Γ condition body} : HasTy Marks Γ condition .boolean → Block Γ.enter body →
      Statement Γ (.loop condition body) Γ
  | ret {Γ value ty} : Γ.result? = some ty → Suits Marks Γ ty value → Statement Γ (.ret value) Γ

/-- Statements in a row. -/
inductive Block : Environment → List Node → Prop
  | nil {Γ} : Block Γ []
  | cons {Γ Γ' statement rest} : Statement Γ statement Γ' → Block Γ' rest →
      Block Γ (statement :: rest)

/-- The cases of a switch over values of a type: some with values, and the default case behind
them. -/
inductive Cases : Environment → Ty → List Node → Prop
  | default {Γ ty body} : Block Γ.enter body → Cases Γ ty [.case .null body]
  | valued {Γ ty value body rest} : Suits Marks Γ ty value → Block Γ.enter body →
      Cases Γ ty rest → Cases Γ ty (.case value body :: rest)

end

/-! ### Programs -/

/-- A global variable, with the environment behind it. -/
inductive Global : Environment → Node → Environment → Prop
  | list {Γ name typeName values note binding ty} : Elements Marks Γ typeName values ty →
      Marks note ty → name ∉ Γ.taken →
      Global Γ (.global name true typeName (.listLiteral values note) true binding)
        (Γ.declare name ⟨ty, true, true⟩)
  | value {Γ name mutable typeName value binding ty} : Initial Marks Γ typeName value ty →
      name ∉ Γ.taken →
      Global Γ (.global name mutable typeName value false binding)
        (Γ.declare name ⟨ty, mutable, false⟩)

/-- Global variables in order, each in the environment behind those before it. -/
inductive Globals : Environment → List Node → Environment → Prop
  | nil {Γ} : Globals Γ [] Γ
  | cons {Γ Γ' Γ'' node rest} : Global Marks Γ node Γ' → Globals Γ' rest Γ'' →
      Globals Γ (node :: rest) Γ''

/-- What a function is called, and what it takes and gives. A parameter without a type takes
anything, and a function without a result type has no result. -/
inductive Header : Node → (String × Nat) × FunctionTy → Prop
  | mk {name parameters typeNames resultName body signature types result} :
      List.Forall₂ (NamedTy .any) typeNames types → NamedTy .nil resultName result →
      Header (.function name parameters typeNames resultName body signature)
        ((name, parameters.length), ⟨types, result⟩)

/-- The body of a function, in an environment that has all functions. -/
inductive Function (Γ : Environment) : Node → FunctionTy → Prop
  | mk {name parameters typeNames resultName body signature f} : parameters.Nodup →
      Block Marks (Γ.body parameters f) body →
      Function Γ (.function name parameters typeNames resultName body signature) f

/-- A whole program: its global variables, the headers of its functions, which must all be
different, and then their bodies. -/
inductive Program : Node → Prop
  | mk {globals functions headers Γ} : Globals Marks .initial globals Γ →
      List.Forall₂ Header functions headers → (headers.map Prod.fst).Nodup →
      List.Forall₂ (fun node header => Function Marks (Γ.withFunctions headers) node header.2)
        functions headers →
      Program (.program globals functions)

end

/-! ### One type at most -/

section

variable {Marks Marks' : Option Ty → Ty → Prop} {Γ : Environment}

theorem not_hasTy_null {ty : Ty} : ¬HasTy Marks Γ .null ty :=
  nofun

/-- An expression has one type at most, whatever its annotations are. -/
theorem HasTy.unique : ∀ {node : Node} {ty ty' : Ty}, HasTy Marks Γ node ty →
    HasTy Marks' Γ node ty' → ty = ty'
  | _, _, _, .literal _, .literal _ => rfl
  | _, _, _, .group h _, .group h' _ => h.unique h'
  | _, _, _, @HasTy.binary _ _ op _ _ _ _ _ _ hleft hright hty _, h' => by
    generalize hsymbol : op.text = symbol at h'
    cases h' with
    | @binary op' _ _ _ _ _ _ hleft' hright' hty' _ =>
      have hop := Operator.ofText?_text op
      rw [hsymbol, Operator.ofText?_text op'] at hop
      obtain rfl := Option.some.inj hop
      obtain rfl := hleft.unique hleft'
      obtain rfl := hright.unique hright'
      exact hty.unique hty'
  | _, _, _, .access hv _ _, h' => by
    cases h' with
    | access hv' _ _ =>
      rw [hv] at hv'
      cases hv'
      rfl
    | element h _ _ _ => exact absurd h not_hasTy_null
  | _, _, _, .element h hv _ _, h' => by
    cases h' with
    | access _ _ _ => exact absurd h not_hasTy_null
    | element _ hv' _ _ =>
      rw [hv] at hv'
      cases hv'
      rfl
  | _, _, _, .call hf _ _, .call hf' _ _ => by
    rw [hf] at hf'
    cases hf'
    rfl

theorem name_injective : Function.Injective Ty.name := by
  intro ty ty' h
  have hty := Ty.ofName?_name ty
  rw [h, Ty.ofName?_name ty'] at hty
  exact (Option.some.inj hty).symm

theorem NamedTy.unique {otherwise ty ty' : Ty} {typeName : Option String}
    (h : NamedTy otherwise typeName ty) (h' : NamedTy otherwise typeName ty') : ty = ty' := by
  cases h with
  | absent =>
    cases h'
    rfl
  | present h =>
    cases h' with
    | present h' => exact name_injective (h.trans h'.symm)

theorem Initial.unique {typeName : Option String} {value : Node} {ty ty' : Ty}
    (h : Initial Marks Γ typeName value ty) (h' : Initial Marks' Γ typeName value ty') :
    ty = ty' := by
  cases h with
  | empty h | checked h _ =>
    cases h' with
    | empty h' | checked h' _ => exact name_injective (h.trans h'.symm)
  | inferred h =>
    cases h' with
    | inferred h' => exact h.unique h'

theorem Elements.unique {typeName : Option String} {values : List Node} {ty ty' : Ty}
    (h : Elements Marks Γ typeName values ty) (h' : Elements Marks' Γ typeName values ty') :
    ty = ty' := by
  cases h with
  | checked h _ =>
    cases h' with
    | checked h' _ => exact name_injective (h.trans h'.symm)
  | inferred h _ =>
    cases h' with
    | inferred h' _ => exact h.unique h'

/-- The environment behind a statement is determined. -/
theorem Statement.unique {Γ₁ Γ₂ : Environment} {node : Node} (h : Statement Marks Γ node Γ₁)
    (h' : Statement Marks' Γ node Γ₂) : Γ₁ = Γ₂ := by
  cases h with
  | declaration h _ =>
    cases h' with
    | declaration h' _ => rw [h.unique h']
  | _ =>
    cases h'
    rfl

theorem Global.unique {Γ₁ Γ₂ : Environment} {node : Node} (h : Global Marks Γ node Γ₁)
    (h' : Global Marks' Γ node Γ₂) : Γ₁ = Γ₂ := by
  cases h with
  | list h _ _ =>
    cases h' with
    | list h' _ _ => rw [h.unique h']
  | value h _ =>
    cases h' with
    | value h' _ => rw [h.unique h']

theorem Globals.unique {Γ₁ Γ₂ : Environment} {nodes : List Node} (h : Globals Marks Γ nodes Γ₁)
    (h' : Globals Marks' Γ nodes Γ₂) : Γ₁ = Γ₂ := by
  induction h with
  | nil =>
    cases h'
    rfl
  | cons h _ ih =>
    cases h' with
    | cons h' hrest' =>
      obtain rfl := h.unique h'
      exact ih hrest'

theorem Header.unique {node : Node} {header header' : (String × Nat) × FunctionTy}
    (h : Header node header) (h' : Header node header') : header = header' := by
  obtain ⟨htypes, hresult⟩ := h
  obtain ⟨htypes', hresult'⟩ := h'
  rw [hresult.unique hresult',
    List.right_unique_forall₂' (fun _ _ _ h h' => h.unique h') htypes htypes']

end

/-! ### Annotations may be left out -/

section

variable {Marks : Option Ty → Ty → Prop} {Γ : Environment}

mutual

theorem HasTy.erase : ∀ {node : Node} {ty : Ty}, HasTy Marks Γ node ty →
    HasTy Unread Γ node.erase ty
  | _, _, .literal _ => .literal trivial
  | _, _, .group h _ => .group h.erase trivial
  | _, _, .binary hleft hright hty _ => .binary hleft.erase hright.erase hty trivial
  | _, _, .access hv hlist _ => .access hv hlist trivial
  | _, _, .element h hv hlist _ => .element h.erase hv hlist trivial
  | _, _, .call hf harguments _ => by
    refine .call ?_ harguments.erase trivial
    rwa [Node.eraseAll_eq_map, List.length_map]

theorem Fit.erase : ∀ {nodes : List Node} {types : List Ty}, Fit Marks Γ nodes types →
    Fit Unread Γ (Node.eraseAll nodes) types
  | _, _, .nil => .nil
  | _, _, .cons h hown hrest => .cons h.erase hown hrest.erase

end

theorem Suits.erase {ty : Ty} {value : Node} (h : Suits Marks Γ ty value) :
    Suits Unread Γ ty value.erase := by
  obtain ⟨own, hown, hassignable⟩ := h
  exact ⟨own, hown.erase, hassignable⟩

theorem Suits.eraseAll {ty : Ty} {values : List Node}
    (h : ∀ value ∈ values, Suits Marks Γ ty value) :
    ∀ value ∈ Node.eraseAll values, Suits Unread Γ ty value := by
  rw [Node.eraseAll_eq_map, List.forall_mem_map]
  exact fun value hvalue => (h value hvalue).erase

theorem Initial.erase {typeName : Option String} {value : Node} {ty : Ty}
    (h : Initial Marks Γ typeName value ty) : Initial Unread Γ typeName value.erase ty := by
  cases h with
  | empty h => exact .empty h
  | checked h hvalue => exact .checked h hvalue.erase
  | inferred h => exact .inferred h.erase

theorem Elements.erase {typeName : Option String} {values : List Node} {ty : Ty}
    (h : Elements Marks Γ typeName values ty) :
    Elements Unread Γ typeName (Node.eraseAll values) ty := by
  cases h with
  | checked h hvalues => exact .checked h (Suits.eraseAll hvalues)
  | inferred h hrest => exact .inferred h.erase (Suits.eraseAll hrest)

mutual

theorem Statement.erase : ∀ {Γ Γ' : Environment} {node : Node}, Statement Marks Γ node Γ' →
    Statement Unread Γ node.erase Γ'
  | _, _, _, .discard h => .discard h.erase
  | _, _, _, .declaration h hname => .declaration h.erase hname
  | _, _, _, .assignment h hv hmutable hvalue => .assignment h.erase hv hmutable hvalue.erase
  | _, _, _, .branch h hne hthen helse => by
    refine .branch h.erase ?_ hthen.erase helse.erase
    rwa [Node.eraseAll_eq_map, ne_eq, List.map_eq_nil_iff]
  | _, _, _, .switch h hcases => .switch h.erase hcases.erase
  | _, _, _, .loop h hbody => .loop h.erase hbody.erase
  | _, _, _, .ret hresult hvalue => .ret hresult hvalue.erase

theorem Block.erase : ∀ {Γ : Environment} {nodes : List Node}, Block Marks Γ nodes →
    Block Unread Γ (Node.eraseAll nodes)
  | _, _, .nil => .nil
  | _, _, .cons h hrest => .cons h.erase hrest.erase

theorem Cases.erase : ∀ {Γ : Environment} {ty : Ty} {nodes : List Node},
    Cases Marks Γ ty nodes → Cases Unread Γ ty (Node.eraseAll nodes)
  | _, _, _, .default hbody => .default hbody.erase
  | _, _, _, .valued hvalue hbody hrest => .valued hvalue.erase hbody.erase hrest.erase

end

theorem Global.erase {Γ' : Environment} {node : Node} (h : Global Marks Γ node Γ') :
    Global Unread Γ node.erase Γ' := by
  cases h with
  | list h _ hname => exact .list h.erase trivial hname
  | value h hname => exact .value h.erase hname

theorem Globals.erase {Γ' : Environment} {nodes : List Node} (h : Globals Marks Γ nodes Γ') :
    Globals Unread Γ (Node.eraseAll nodes) Γ' := by
  induction h with
  | nil => exact .nil
  | cons h _ ih => exact .cons h.erase ih

theorem Header.erase {node : Node} {header : (String × Nat) × FunctionTy}
    (h : Header node header) : Header node.erase header := by
  obtain ⟨htypes, hresult⟩ := h
  exact .mk htypes hresult

theorem Function.erase {node : Node} {f : FunctionTy} (h : Function Marks Γ node f) :
    Function Unread Γ node.erase f := by
  obtain ⟨hparameters, hbody⟩ := h
  exact .mk hparameters hbody.erase

/-- A program that is well typed with its annotations is also well typed without them. -/
theorem Program.erase {node : Node} (h : Program Marks node) : Program Unread node.erase := by
  obtain ⟨hglobals, hheaders, hnodup, hbodies⟩ := h
  refine .mk hglobals.erase ?_ hnodup ?_
  · rw [Node.eraseAll_eq_map, List.forall₂_map_left_iff]
    exact hheaders.imp fun _ _ => Header.erase
  · rw [Node.eraseAll_eq_map, List.forall₂_map_left_iff]
    exact hbodies.imp fun _ _ => Function.erase

end

end Judgement

end BlockScript

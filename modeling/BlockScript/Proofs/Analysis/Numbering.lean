import BlockScript.Proofs.Analysis.Annotation
import BlockScript.Proofs.Analysis.Yields
/-!
# The numbers of bindings have no influence

Bindings are told apart by numbers, and a check hands out the next number with every declaration.
Which number that is has no influence on anything else: in tables that give every name the same
meaning up to numbers, checks find the same faults, take the same notes and leave the same trees and
tables behind, up to numbers.

## Main definitions

* `Node.unnumbered` — a tree with its annotations, but without the numbers of bindings
* `StaticChain.Alike`, `Tables.Alike` — tables with the same meanings up to numbers
* `Checked.Alike` — checks that find the same

## Main results

* `alike_expression`, `alike_block`, `alike_function` — checks in tables that are alike
-/

namespace BlockScript

/-- The binding without its number. -/
def Binding.unnumbered (binding : Binding) : Binding :=
  { binding with number := 0 }

namespace Node

mutual

/-- The tree with its annotations, but without the numbers of bindings. -/
def unnumbered : Node → Node
  | null => null
  | literal value type => literal value type
  | group inner type => group inner.unnumbered type
  | binary symbol left right type => binary symbol left.unnumbered right.unnumbered type
  | access name offset type binding =>
    access name offset.unnumbered type (binding.map Binding.unnumbered)
  | call name arguments type callee => call name (unnumberedAll arguments) type callee
  | listLiteral values type => listLiteral (unnumberedAll values) type
  | discard expression => discard expression.unnumbered
  | declaration name typeName value binding =>
    declaration name typeName value.unnumbered (binding.map Binding.unnumbered)
  | assignment receiver value => assignment receiver.unnumbered value.unnumbered
  | branch condition thenBody elseBody =>
    branch condition.unnumbered (unnumberedAll thenBody) (unnumberedAll elseBody)
  | case value body => case value.unnumbered (unnumberedAll body)
  | switch condition cases => switch condition.unnumbered (unnumberedAll cases)
  | loop condition body => loop condition.unnumbered (unnumberedAll body)
  | ret value => ret value.unnumbered
  | global name mutable typeName value isList binding =>
    global name mutable typeName value.unnumbered isList (binding.map Binding.unnumbered)
  | function name parameters parameterTypes resultType body signature =>
    function name parameters parameterTypes resultType (unnumberedAll body) signature
  | program globals functions => program (unnumberedAll globals) (unnumberedAll functions)

/-- Several trees without the numbers of bindings. -/
def unnumberedAll : List Node → List Node
  | [] => []
  | node :: rest => node.unnumbered :: unnumberedAll rest

end

theorem type?_unnumbered (node : Node) : node.unnumbered.type? = node.type? := by
  cases node <;> simp only [unnumbered, type?]

theorem kind?_unnumbered (node : Node) : node.unnumbered.kind? = node.kind? := by
  cases node <;> simp only [unnumbered, kind?]

theorem isNull_unnumbered (node : Node) : node.unnumbered.isNull = node.isNull := by
  cases node <;> simp only [unnumbered, isNull]

mutual

theorem erase_unnumbered : ∀ node : Node, node.unnumbered.erase = node.erase
  | null | literal .. => rfl
  | group inner _ => by
    rw [unnumbered, erase, erase, erase_unnumbered inner]
  | binary _ left right _ => by
    rw [unnumbered, erase, erase, erase_unnumbered left, erase_unnumbered right]
  | access _ offset _ _ => by
    rw [unnumbered, erase, erase, erase_unnumbered offset]
  | call _ arguments _ _ => by
    rw [unnumbered, erase, erase, eraseAll_unnumberedAll arguments]
  | listLiteral values _ => by
    rw [unnumbered, erase, erase, eraseAll_unnumberedAll values]
  | discard expression => by
    rw [unnumbered, erase, erase, erase_unnumbered expression]
  | declaration _ _ value _ => by
    rw [unnumbered, erase, erase, erase_unnumbered value]
  | assignment receiver value => by
    rw [unnumbered, erase, erase, erase_unnumbered receiver, erase_unnumbered value]
  | branch condition thenBody elseBody => by
    rw [unnumbered, erase, erase, erase_unnumbered condition, eraseAll_unnumberedAll thenBody,
      eraseAll_unnumberedAll elseBody]
  | case value body => by
    rw [unnumbered, erase, erase, erase_unnumbered value, eraseAll_unnumberedAll body]
  | switch condition cases => by
    rw [unnumbered, erase, erase, erase_unnumbered condition, eraseAll_unnumberedAll cases]
  | loop condition body => by
    rw [unnumbered, erase, erase, erase_unnumbered condition, eraseAll_unnumberedAll body]
  | ret value => by
    rw [unnumbered, erase, erase, erase_unnumbered value]
  | global _ _ _ value _ _ => by
    rw [unnumbered, erase, erase, erase_unnumbered value]
  | function _ _ _ _ body _ => by
    rw [unnumbered, erase, erase, eraseAll_unnumberedAll body]
  | program globals functions => by
    rw [unnumbered, erase, erase, eraseAll_unnumberedAll globals,
      eraseAll_unnumberedAll functions]

theorem eraseAll_unnumberedAll : ∀ nodes : List Node,
    eraseAll (unnumberedAll nodes) = eraseAll nodes
  | [] => rfl
  | node :: rest => by
    rw [unnumberedAll, eraseAll, eraseAll, erase_unnumbered node, eraseAll_unnumberedAll rest]

end

/-- Two trees are the same up to the numbers of bindings. -/
def Alike (node node' : Node) : Prop :=
  node.unnumbered = node'.unnumbered

/-- Two rows of trees are the same up to the numbers of bindings. -/
def AllAlike (nodes nodes' : List Node) : Prop :=
  unnumberedAll nodes = unnumberedAll nodes'

theorem AllAlike.cons {node node' : Node} {rest rest' : List Node} (h : node.Alike node')
    (hrest : AllAlike rest rest') : AllAlike (node :: rest) (node' :: rest') :=
  congrArg₂ List.cons h hrest

namespace Alike

section

variable {node node' : Node}

theorem type?_eq (h : node.Alike node') : node.type? = node'.type? := by
  rw [← type?_unnumbered node, show node.unnumbered = _ from h, type?_unnumbered]

theorem kind?_eq (h : node.Alike node') : node.kind? = node'.kind? := by
  rw [← kind?_unnumbered node, show node.unnumbered = _ from h, kind?_unnumbered]

theorem isNull_eq (h : node.Alike node') : node.isNull = node'.isNull := by
  rw [← isNull_unnumbered node, show node.unnumbered = _ from h, isNull_unnumbered]

end

/-! Trees whose parts are the same up to numbers are. -/

section

variable {name symbol : String} {type : Option Ty} {typeName resultType : Option String}
  {binding binding' : Option Binding} {callee : Option Signature} {isMutable isList : Bool}
  {parameters : List String} {parameterTypes : List (Option String)}
  {inner inner' left left' right right' : Node} {body body' others others' : List Node}

theorem group (h : inner.Alike inner') : (Node.group inner type).Alike (.group inner' type) :=
  congrArg (Node.group · type) h

theorem binary (hleft : left.Alike left') (hright : right.Alike right') :
    (Node.binary symbol left right type).Alike (.binary symbol left' right' type) :=
  congrArg₂ (Node.binary symbol · · type) hleft hright

theorem access (h : inner.Alike inner')
    (hbinding : binding.map Binding.unnumbered = binding'.map Binding.unnumbered) :
    (Node.access name inner type binding).Alike (.access name inner' type binding') :=
  congrArg₂ (Node.access name · type ·) h hbinding

theorem call (h : AllAlike body body') :
    (Node.call name body type callee).Alike (.call name body' type callee) :=
  congrArg (Node.call name · type callee) h

theorem listLiteral (h : AllAlike body body') :
    (Node.listLiteral body type).Alike (.listLiteral body' type) :=
  congrArg (Node.listLiteral · type) h

theorem discard (h : inner.Alike inner') : (Node.discard inner).Alike (.discard inner') :=
  congrArg Node.discard h

theorem declaration (h : inner.Alike inner')
    (hbinding : binding.map Binding.unnumbered = binding'.map Binding.unnumbered) :
    (Node.declaration name typeName inner binding).Alike
      (.declaration name typeName inner' binding') :=
  congrArg₂ (Node.declaration name typeName) h hbinding

theorem assignment (hleft : left.Alike left') (hright : right.Alike right') :
    (Node.assignment left right).Alike (.assignment left' right') :=
  congrArg₂ Node.assignment hleft hright

theorem branch (h : inner.Alike inner') (hbody : AllAlike body body')
    (hothers : AllAlike others others') :
    (Node.branch inner body others).Alike (.branch inner' body' others') := by
  unfold Alike
  rw [unnumbered, unnumbered, show inner.unnumbered = _ from h,
    show unnumberedAll body = _ from hbody, show unnumberedAll others = _ from hothers]

theorem case (h : inner.Alike inner') (hbody : AllAlike body body') :
    (Node.case inner body).Alike (.case inner' body') :=
  congrArg₂ Node.case h hbody

theorem switch (h : inner.Alike inner') (hbody : AllAlike body body') :
    (Node.switch inner body).Alike (.switch inner' body') :=
  congrArg₂ Node.switch h hbody

theorem loop (h : inner.Alike inner') (hbody : AllAlike body body') :
    (Node.loop inner body).Alike (.loop inner' body') :=
  congrArg₂ Node.loop h hbody

theorem ret (h : inner.Alike inner') : (Node.ret inner).Alike (.ret inner') :=
  congrArg Node.ret h

theorem global (h : inner.Alike inner')
    (hbinding : binding.map Binding.unnumbered = binding'.map Binding.unnumbered) :
    (Node.global name isMutable typeName inner isList binding).Alike
      (.global name isMutable typeName inner' isList binding') :=
  congrArg₂ (Node.global name isMutable typeName · isList ·) h hbinding

theorem function (h : AllAlike body body') :
    (Node.function name parameters parameterTypes resultType body callee).Alike
      (.function name parameters parameterTypes resultType body' callee) :=
  congrArg (Node.function name parameters parameterTypes resultType · callee) h

theorem withValue (node : Node) (h : inner.Alike inner') :
    (node.withValue inner).Alike (node.withValue inner') := by
  cases node with
  | declaration => exact .declaration h rfl
  | assignment => exact .assignment rfl h
  | case => exact .case h rfl
  | ret => exact .ret h
  | global => exact .global h rfl
  | _ => rfl

end

end Alike

end Node

/-- Two tables give every name the same meaning, up to the numbers of bindings. -/
structure StaticChain.Alike (chain chain' : StaticChain) : Prop where
  /-- Variables have the same bindings. -/
  vars : ∀ name, (chain.findVariable? name).map Binding.unnumbered =
    (chain'.findVariable? name).map Binding.unnumbered
  /-- Functions have the same signatures. -/
  funs : ∀ name arity, chain.findFunction? name arity = chain'.findFunction? name arity

/-- Two tables are the same to every check, up to the numbers of bindings. -/
structure Tables.Alike (tables tables' : Tables) : Prop where
  /-- Names have the same meanings. -/
  chain : StaticChain.Alike tables.chain tables'.chain
  /-- The innermost tables have the same names. -/
  taken : ∀ name, (tables.inner.findVariable? name).isSome =
    (tables'.inner.findVariable? name).isSome

/-! ### Requirements -/

/-- Two requirements are met, with related outcomes, or fail for the same reason. -/
inductive Meets {γ δ : Type} (R : γ → δ → Prop) :
    Except AnalysisError γ → Except AnalysisError δ → Prop
  | ok {c d} : R c d → Meets R (.ok c) (.ok d)
  | error {e} : Meets R (.error e) (.error e)

theorem Meets.of_eq {γ : Type} {requirement requirement' : Except AnalysisError γ}
    (h : requirement = requirement') : Meets (· = ·) requirement requirement' := by
  subst h
  cases requirement with
  | ok c => exact .ok rfl
  | error e => exact .error

theorem Meets.bind {γ δ γ' δ' : Type} {R : γ → δ → Prop} {S : γ' → δ' → Prop}
    {requirement : Except AnalysisError γ} {requirement' : Except AnalysisError δ}
    {next : γ → Except AnalysisError γ'} {next' : δ → Except AnalysisError δ'}
    (h : Meets R requirement requirement') (hnext : ∀ c d, R c d → Meets S (next c) (next' d)) :
    Meets S (requirement >>= next) (requirement' >>= next') := by
  cases h with
  | ok h => exact hnext _ _ h
  | error => exact .error

theorem meets_findVariable {chain chain' : StaticChain} (h : chain.Alike chain') (name : String) :
    Meets (fun found found' => found.unnumbered = found'.unnumbered)
      (StaticChain.findVariable chain name) (StaticChain.findVariable chain' name) := by
  have hfind := h.vars name
  unfold StaticChain.findVariable Chain.lookupVariable
  cases hfound : chain.findVariable? name with
  | none =>
    rw [hfound, Option.map_none, eq_comm, Option.map_eq_none_iff] at hfind
    rw [hfind]
    exact .error
  | some found =>
    rw [hfound, Option.map_some, eq_comm, Option.map_eq_some_iff] at hfind
    obtain ⟨found', hfound', heq⟩ := hfind
    rw [hfound']
    exact .ok heq.symm

theorem StaticChain.Alike.findFunction_eq {chain chain' : StaticChain} (h : chain.Alike chain')
    (name : String) (arity : Nat) :
    StaticChain.findFunction chain name arity = StaticChain.findFunction chain' name arity := by
  unfold StaticChain.findFunction Chain.lookupFunction
  rw [h.funs]

/-- A return is checked against the same type. -/
theorem StaticChain.Alike.resultTyAt_eq {chain chain' : StaticChain} (h : chain.Alike chain') :
    resultTyAt chain = resultTyAt chain' := by
  have hfind := h.vars returnName
  unfold resultTyAt
  cases hfound : chain.findVariable? returnName with
  | none =>
    rw [hfound, Option.map_none, eq_comm, Option.map_eq_none_iff] at hfind
    rw [hfind]
  | some found =>
    rw [hfound, Option.map_some, eq_comm, Option.map_eq_some_iff] at hfind
    obtain ⟨found', hfound', heq⟩ := hfind
    rw [hfound']
    exact congrArg (Except.ok ·.type) heq.symm

theorem requireReceiver_eq {value value' receiver receiver' : Node} (hvalue : value.Alike value')
    (hreceiver : receiver.Alike receiver') :
    requireReceiver value receiver = requireReceiver value' receiver' := by
  have hown : ∀ receiver : Node,
      requireReceiver value receiver.unnumbered = requireReceiver value receiver := by
    intro receiver
    cases receiver with
    | access name offset type binding => cases binding <;> rfl
    | _ => simp only [Node.unnumbered, requireReceiver]
  rw [← hown, show receiver.unnumbered = _ from hreceiver, hown]
  unfold requireReceiver
  rw [hvalue.type?_eq]

namespace Tables.Alike

variable {tables tables' : Tables}

theorem refl (tables : Tables) : tables.Alike tables where
  chain := ⟨fun _ => rfl, fun _ _ => rfl⟩
  taken _ := rfl

theorem trans {tables'' : Tables} (h : tables.Alike tables') (h' : tables'.Alike tables'') :
    tables.Alike tables'' where
  chain :=
    { vars := fun name => (h.chain.vars name).trans (h'.chain.vars name)
      funs := fun name arity => (h.chain.funs name arity).trans (h'.chain.funs name arity) }
  taken name := (h.taken name).trans (h'.taken name)

theorem enter (h : tables.Alike tables') : tables.enter.Alike tables'.enter where
  chain := ⟨h.chain.vars, h.chain.funs⟩
  taken _ := rfl

theorem resume (h : tables.Alike tables') (inside inside' : Tables) :
    (tables.resume inside).Alike (tables'.resume inside') where
  chain := h.chain
  taken := h.taken

/-- A declaration has the same outcome, up to the number that it hands out. -/
theorem declare (h : tables.Alike tables') (name : String) (type : Option Ty)
    (mutable isList : Bool) :
    Meets
      (fun declared declared' =>
        declared.1.unnumbered = declared'.1.unnumbered ∧ declared.2.Alike declared'.2)
      (tables.declare name type mutable isList) (tables'.declare name type mutable isList) := by
  have htaken := h.taken name
  cases hfound : tables.inner.findVariable? name with
  | some found =>
    rw [hfound, Option.isSome_some, eq_comm, Option.isSome_iff_exists] at htaken
    obtain ⟨found', hfound'⟩ := htaken
    unfold Tables.declare Frame.defineVariable
    rw [hfound, hfound']
    exact .error
  | none =>
    rw [hfound, Option.isSome_none, eq_comm, Option.isSome_eq_false_iff,
      Option.isNone_iff_eq_none] at htaken
    have hdeclare : tables.declare name type mutable isList = .ok (_, _) :=
      declare_eq_ok_iff.mpr ⟨hfound, rfl, rfl⟩
    have hdeclare' : tables'.declare name type mutable isList = .ok (_, _) :=
      declare_eq_ok_iff.mpr ⟨htaken, rfl, rfl⟩
    rw [hdeclare, hdeclare']
    refine .ok ⟨rfl, ⟨fun other => ?_, h.chain.funs⟩, fun other => ?_⟩
    · rw [(findVariable?_of_declare other hdeclare).2, (findVariable?_of_declare other hdeclare').2]
      split_ifs
      · rfl
      · exact h.chain.vars other
    · rw [(findVariable?_of_declare other hdeclare).1, (findVariable?_of_declare other hdeclare').1]
      split_ifs
      · rfl
      · exact h.taken other

end Tables.Alike

/-! ### Checks that find the same -/

/-- Two checks leave related outcomes behind, take the same notes and find the same fault. -/
structure Checked.Alike {α β : Type} (R : α → β → Prop) (x : Checked α) (y : Checked β) : Prop where
  /-- What they leave behind is related. -/
  result : R x.result y.result
  /-- They take the same notes. -/
  notes : x.notes = y.notes
  /-- They find the same fault, or none. -/
  fault : x.fault = y.fault

namespace Checked.Alike

variable {α β γ δ α' β' : Type} {R : α → β → Prop} {S : γ → δ → Prop} {x : Checked α}
  {y : Checked β}

theorem done {a : α} {b : β} (h : R a b) : Alike R (.done a) (.done b) :=
  ⟨h, rfl, rfl⟩

theorem noted {level : Int} {text : String} {a : α} {b : β} (h : R a b) :
    Alike R (.noted level text a) (.noted level text b) :=
  ⟨h, rfl, rfl⟩

theorem refuse {e : AnalysisError} {a : α} {b : β} (h : R a b) :
    Alike R (.refuse a e) (.refuse b e) :=
  ⟨h, rfl, rfl⟩

theorem misshapen {e : ShapeError} {a : α} {b : β} (h : R a b) :
    Alike R (.misshapen a e) (.misshapen b e) :=
  ⟨h, rfl, rfl⟩

theorem map {f : α → γ} {g : β → δ} (h : Alike R x y) (hmap : ∀ a b, R a b → S (f a) (g b)) :
    Alike S (x.map f) (y.map g) :=
  ⟨hmap _ _ h.result, h.notes, h.fault⟩

theorem bind {f : α → γ} {g : β → δ} {next : α → Checked γ} {next' : β → Checked δ}
    (h : Alike R x y) (hsoFar : ∀ a b, R a b → S (f a) (g b))
    (hnext : ∀ a b, R a b → Alike S (next a) (next' b)) :
    Alike S (x.bind f next) (y.bind g next') := by
  have hbehind := hnext _ _ h.result
  unfold Checked.bind
  rw [← h.fault]
  cases x.fault with
  | some fault => exact ⟨hsoFar _ _ h.result, h.notes, h.fault⟩
  | none => exact ⟨hbehind.result, congrArg₂ _ h.notes hbehind.notes, hbehind.fault⟩

theorem ensure {T : α' → β' → Prop} {requirement : Except AnalysisError α'}
    {requirement' : Except AnalysisError β'} {c : γ} {d : δ} {next : α' → Checked γ}
    {next' : β' → Checked δ} (h : Meets T requirement requirement') (hsoFar : S c d)
    (hnext : ∀ a b, T a b → Alike S (next a) (next' b)) :
    Alike S (.ensure requirement c next) (.ensure requirement' d next') := by
  cases h with
  | ok h => exact hnext _ _ h
  | error => exact refuse hsoFar

theorem ite {p : Prop} [Decidable p] {x' : Checked α} {y' : Checked β} (h : Alike R x y)
    (h' : Alike R x' y') : Alike R (if p then x else x') (if p then y else y') := by
  split
  · exact h
  · exact h'

end Checked.Alike

open Checked (Alike)

/-! ### Expressions -/

section

variable {chain chain' : StaticChain}

mutual

theorem alike_expression (h : chain.Alike chain') : ∀ node : Node,
    Alike Node.Alike (checkExpression chain node) (checkExpression chain' node)
  | .literal value type => .done rfl
  | .group inner type => by
    rw [checkExpression, checkExpression]
    refine .ite ((alike_expression h inner).bind (fun _ _ => .group) ?_) (.refuse rfl)
    intro inner inner' hinner
    rw [hinner.type?_eq]
    exact .done hinner.group
  | .binary symbol left right type => by
    rw [checkExpression, checkExpression]
    refine (alike_expression h left).bind (fun _ _ h => .binary h rfl) fun left left' hleft => ?_
    refine (alike_expression h right).bind (fun _ _ h => .binary hleft h) ?_
    intro right right' hright
    rw [hleft.type?_eq, hright.type?_eq]
    refine .ensure (.of_eq rfl) (.binary hleft hright) ?_
    rintro ty _ rfl
    exact .done (.binary hleft hright)
  | .access name offset type binding => by
    rw [checkExpression, checkExpression]
    have hchecked : Alike Node.Alike
        (if offset.isNull then Checked.done offset else checkExpression chain offset)
        (if offset.isNull then Checked.done offset else checkExpression chain' offset) :=
      .ite (.done rfl) (alike_expression h offset)
    refine hchecked.bind (fun _ _ h => .access h rfl) fun offset offset' hoffset => ?_
    have hnode : (Node.access name offset type binding).Alike (.access name offset' type binding) :=
      .access hoffset rfl
    rw [hoffset.isNull_eq, hoffset.type?_eq]
    refine .ite (.refuse hnode) ?_
    refine .ensure (meets_findVariable h name) hnode fun found found' hfound => ?_
    have htype : found.type = found'.type := congrArg (·.type) hfound
    have hlist : found.isList = found'.isList := congrArg (·.isList) hfound
    rw [htype, hlist]
    refine .ite (.refuse hnode) (.ite (.refuse hnode) (.done ?_))
    exact .access hoffset (congrArg some hfound)
  | .call name arguments type callee => by
    rw [checkExpression, checkExpression, h.findFunction_eq]
    refine .ensure (.of_eq rfl) rfl ?_
    rintro found _ rfl
    exact (alike_arguments h arguments found.parameters).bind (fun _ _ => .call) fun _ _ h =>
      .noted (.call h)
  | .listLiteral values type => by
    rw [checkExpression, checkExpression]
    refine (alike_values h values type).map ?_
    rintro ⟨values, type⟩ ⟨values', _⟩ ⟨hvalues, rfl⟩
    exact .listLiteral hvalues
  | .null | .discard .. | .declaration .. | .assignment .. | .branch .. | .case .. | .switch ..
  | .loop .. | .ret .. | .global .. | .function .. | .program .. => .misshapen rfl

theorem alike_arguments (h : chain.Alike chain') : ∀ (nodes : List Node) (types : List Ty),
    Alike Node.AllAlike (checkArguments chain nodes types) (checkArguments chain' nodes types)
  | argument :: rest, parameter :: parameters => by
    rw [checkArguments, checkArguments]
    refine (alike_expression h argument).bind (fun _ _ h => .cons h rfl) ?_
    intro argument argument' hargument
    rw [hargument.type?_eq]
    refine .ensure (.of_eq rfl) (.cons hargument rfl) fun _ _ _ => ?_
    exact (alike_arguments h rest parameters).map fun _ _ hrest => .cons hargument hrest
  | [], _ => .done rfl
  | _ :: _, [] => .done rfl

theorem alike_values (h : chain.Alike chain') : ∀ (nodes : List Node) (type : Option Ty),
    Alike (fun outcome outcome' =>
        Node.AllAlike outcome.1 outcome'.1 ∧ outcome.2 = outcome'.2)
      (checkValues chain nodes type) (checkValues chain' nodes type)
  | [], type => .done ⟨rfl, rfl⟩
  | value :: rest, type => by
    rw [checkValues, checkValues]
    refine (alike_expression h value).bind (fun _ _ h => ⟨.cons h rfl, rfl⟩) ?_
    intro value value' hvalue
    rw [hvalue.type?_eq]
    refine .ensure (.of_eq rfl) ⟨.cons hvalue rfl, rfl⟩ fun _ _ _ => ?_
    exact (alike_values h rest _).map fun _ _ hrest => ⟨.cons hvalue hrest.1, hrest.2⟩

end

theorem alike_initial (h : chain.Alike chain') (declared : Option Ty) (value : Node) :
    Alike (fun outcome outcome' => outcome.1.Alike outcome'.1 ∧ outcome.2 = outcome'.2)
      (checkInitial chain declared value) (checkInitial chain' declared value) := by
  unfold checkInitial
  refine .ite (.done ⟨rfl, rfl⟩) ?_
  refine (alike_expression h value).bind (fun _ _ hvalue => ⟨hvalue, rfl⟩) ?_
  intro value value' hvalue
  rw [hvalue.type?_eq]
  cases declared with
  | none => exact .done ⟨hvalue, rfl⟩
  | some ty => exact .ensure (.of_eq rfl) ⟨hvalue, rfl⟩ fun _ _ _ => .done ⟨hvalue, rfl⟩

theorem alike_strayCase (h : chain.Alike chain') (condition : Option Ty) (isLast : Bool)
    (node : Node) : Alike Node.Alike (checkStrayCase chain condition isLast node)
      (checkStrayCase chain' condition isLast node) := by
  unfold checkStrayCase
  split
  · exact .misshapen rfl
  · rename_i value _
    refine .ite (.ite (.misshapen rfl) (.refuse rfl)) (.ite (.refuse rfl) ?_)
    refine (alike_expression h value).bind (fun _ _ => .withValue node) fun _ _ hvalue => ?_
    rw [hvalue.type?_eq]
    exact .ensure (.of_eq rfl) (.withValue node hvalue) fun _ _ _ =>
      .misshapen (.withValue node hvalue)

end

/-! ### Statements -/

/-- Outcomes with the same tree and the same tables, up to the numbers of bindings. -/
def Outcome.Alike (outcome outcome' : Node × Tables) : Prop :=
  outcome.1.Alike outcome'.1 ∧ outcome.2.Alike outcome'.2

/-- Outcomes with the same trees and the same tables, up to the numbers of bindings. -/
def Outcome.AllAlike (outcome outcome' : List Node × Tables) : Prop :=
  Node.AllAlike outcome.1 outcome'.1 ∧ outcome.2.Alike outcome'.2

mutual

theorem alike_statement : ∀ {tables tables' : Tables}, tables.Alike tables' → ∀ node : Node,
    Alike Outcome.Alike (checkStatement tables node) (checkStatement tables' node)
  | tables, tables', h, .discard expression => by
    rw [checkStatement, checkStatement]
    refine (alike_expression h.chain expression).bind (fun _ _ hinner => ⟨.discard hinner, h⟩) ?_
    intro inner inner' hinner
    rw [hinner.kind?_eq]
    exact .ite (.done ⟨.discard hinner, h⟩) (.refuse ⟨.discard hinner, h⟩)
  | tables, tables', h, .declaration name typeName value binding => by
    rw [checkStatement, checkStatement]
    refine .ite (.refuse ⟨rfl, h⟩) (.ensure (.of_eq rfl) ⟨rfl, h⟩ ?_)
    rintro declared _ rfl
    refine (alike_initial h.chain declared value).bind ?_ ?_
    · rintro ⟨value, ty⟩ ⟨value', _⟩ ⟨hvalue, rfl⟩
      exact ⟨.declaration hvalue rfl, h⟩
    rintro ⟨value, ty⟩ ⟨value', _⟩ ⟨hvalue, rfl⟩
    refine .ensure (h.declare name ty true false) ⟨.declaration hvalue rfl, h⟩ ?_
    rintro ⟨binding, after⟩ ⟨binding', after'⟩ ⟨hbinding, hafter⟩
    exact .done ⟨.declaration hvalue (congrArg some hbinding), hafter⟩
  | tables, tables', h, .assignment receiver value => by
    rw [checkStatement, checkStatement]
    refine .ite ?_ (.refuse ⟨rfl, h⟩)
    refine (alike_expression h.chain value).bind (fun _ _ hvalue => ⟨.assignment rfl hvalue, h⟩) ?_
    intro value value' hvalue
    refine (alike_expression h.chain receiver).bind
      (fun _ _ hreceiver => ⟨.assignment hreceiver hvalue, h⟩) ?_
    intro receiver receiver' hreceiver
    have hnode := Node.Alike.assignment hreceiver hvalue
    rw [requireReceiver_eq hvalue hreceiver]
    exact .ensure (.of_eq rfl) ⟨hnode, h⟩ fun _ _ _ => .done ⟨hnode, h⟩
  | tables, tables', h, .branch condition thenBody elseBody => by
    rw [checkStatement, checkStatement]
    refine (alike_expression h.chain condition).bind
      (fun _ _ hcondition => ⟨.branch hcondition rfl rfl, h⟩) ?_
    intro condition condition' hcondition
    rw [hcondition.type?_eq]
    refine .ensure (.of_eq rfl) ⟨.branch hcondition rfl rfl, h⟩ fun _ _ _ => ?_
    refine .ite (.refuse ⟨.branch hcondition rfl rfl, h⟩) ?_
    refine (alike_block h.enter thenBody).bind
      (fun _ _ hthen => ⟨.branch hcondition hthen.1 rfl, h.resume _ _⟩) ?_
    rintro ⟨thenBody, inside⟩ ⟨thenBody', inside'⟩ ⟨hthen, -⟩
    exact (alike_block (h.resume inside inside').enter elseBody).map fun _ _ helse =>
      ⟨.branch hcondition hthen helse.1, h.resume _ _⟩
  | tables, tables', h, .switch condition cases => by
    rw [checkStatement, checkStatement]
    refine (alike_expression h.chain condition).bind
      (fun _ _ hcondition => ⟨.switch hcondition rfl, h⟩) ?_
    intro condition condition' hcondition
    rw [hcondition.type?_eq]
    exact (alike_cases h condition'.type? cases).map fun _ _ hcases =>
      ⟨.switch hcondition hcases.1, hcases.2⟩
  | tables, tables', h, .loop condition body => by
    rw [checkStatement, checkStatement]
    refine (alike_expression h.chain condition).bind
      (fun _ _ hcondition => ⟨.loop hcondition rfl, h⟩) ?_
    intro condition condition' hcondition
    rw [hcondition.type?_eq]
    refine .ensure (.of_eq rfl) ⟨.loop hcondition rfl, h⟩ fun _ _ _ => ?_
    exact (alike_block h.enter body).map fun _ _ hbody =>
      ⟨.loop hcondition hbody.1, h.resume _ _⟩
  | tables, tables', h, .ret value => by
    rw [checkStatement, checkStatement, h.chain.resultTyAt_eq]
    refine (alike_expression h.chain value).bind (fun _ _ hvalue => ⟨.ret hvalue, h⟩) ?_
    intro value value' hvalue
    rw [hvalue.type?_eq]
    refine .ensure (.of_eq rfl) ⟨.ret hvalue, h⟩ ?_
    rintro result _ rfl
    exact .ensure (.of_eq rfl) ⟨.ret hvalue, h⟩ fun _ _ _ => .done ⟨.ret hvalue, h⟩
  | _, _, h, .null | _, _, h, .literal .. | _, _, h, .group .. | _, _, h, .binary ..
  | _, _, h, .access .. | _, _, h, .call .. | _, _, h, .listLiteral .. | _, _, h, .case ..
  | _, _, h, .global .. | _, _, h, .function .. | _, _, h, .program .. => .misshapen ⟨rfl, h⟩

theorem alike_block : ∀ {tables tables' : Tables}, tables.Alike tables' → ∀ nodes : List Node,
    Alike Outcome.AllAlike (checkBlock tables nodes) (checkBlock tables' nodes)
  | _, _, h, [] => .done ⟨rfl, h⟩
  | tables, tables', h, statement :: rest => by
    rw [checkBlock, checkBlock]
    refine (alike_statement h statement).bind
      (fun _ _ hstatement => ⟨.cons hstatement.1 rfl, hstatement.2⟩) ?_
    rintro ⟨statement, after⟩ ⟨statement', after'⟩ ⟨hstatement, hafter⟩
    exact (alike_block hafter rest).map fun _ _ hrest => ⟨.cons hstatement hrest.1, hrest.2⟩

theorem alike_cases : ∀ {tables tables' : Tables}, tables.Alike tables' →
    ∀ (condition : Option Ty) (nodes : List Node),
      Alike Outcome.AllAlike (checkCases tables condition nodes)
        (checkCases tables' condition nodes)
  | _, _, h, _, [] => .done ⟨rfl, h⟩
  | tables, tables', h, condition, node :: rest => by
    cases node with
    | case value body =>
      rw [checkCases, checkCases]
      have hvalue : Alike Node.Alike
          (if value.isNull then
            if rest.isEmpty then Checked.done value else .refuse value .earlyDefault
          else if rest.isEmpty then .refuse value .missingDefault
          else
            (checkExpression tables.chain value).bind (fun value => value) fun value =>
            .ensure (requireAccepted condition value.type?) value fun _ => .done value)
          (if value.isNull then
            if rest.isEmpty then Checked.done value else .refuse value .earlyDefault
          else if rest.isEmpty then .refuse value .missingDefault
          else
            (checkExpression tables'.chain value).bind (fun value => value) fun value =>
            .ensure (requireAccepted condition value.type?) value fun _ => .done value) := by
        refine .ite (.ite (.done rfl) (.refuse rfl)) (.ite (.refuse rfl) ?_)
        refine (alike_expression h.chain value).bind (fun _ _ hvalue => hvalue) ?_
        intro value value' hvalue
        rw [hvalue.type?_eq]
        exact .ensure (.of_eq rfl) hvalue fun _ _ _ => .done hvalue
      refine hvalue.bind (fun _ _ hvalue => ⟨.cons (.case hvalue rfl) rfl, h⟩) ?_
      intro value value' hvalue
      refine (alike_block h.enter body).bind
        (fun _ _ hbody => ⟨.cons (.case hvalue hbody.1) rfl, h.resume _ _⟩) ?_
      rintro ⟨body, inside⟩ ⟨body', inside'⟩ ⟨hbody, -⟩
      exact (alike_cases (h.resume inside inside') condition rest).map fun _ _ hrest =>
        ⟨.cons (.case hvalue hbody) hrest.1, hrest.2⟩
    | _ =>
      rw [checkCases, checkCases]
      · exact (alike_strayCase h.chain condition rest.isEmpty _).map fun _ _ hnode =>
          ⟨.cons hnode rfl, h⟩
      all_goals exact nofun

end

/-! ### Functions -/

/-- The tables of a body are the same, up to numbers. -/
theorem meets_bodyTables {tables tables' : Tables} (h : tables.Alike tables')
    (signature : Signature) (parameters : List String) :
    Meets Tables.Alike (bodyTables tables signature parameters)
      (bodyTables tables' signature parameters) := by
  have hparameters : ∀ (parameters : List (String × Ty)) {start start' : Tables},
      start.Alike start' →
        Meets Tables.Alike
          (parameters.foldlM (fun inside parameter => do
            return (← inside.declare parameter.1 (some parameter.2) true false).2) start)
          (parameters.foldlM (fun inside parameter => do
            return (← inside.declare parameter.1 (some parameter.2) true false).2) start') := by
    intro parameters
    induction parameters with
    | nil => exact fun h => .ok h
    | cons parameter rest ih =>
      intro start start' hstart
      rw [List.foldlM_cons, List.foldlM_cons]
      refine Meets.bind ((hstart.declare parameter.1 (some parameter.2) true false).bind
        (S := Tables.Alike) fun _ _ h => .ok h.2) fun _ _ h => ih h
  exact (h.enter.declare returnName (some signature.result) false false).bind fun _ _ h =>
    hparameters _ h.2

/-- The check of a function finds the same in tables that are alike. -/
theorem alike_function {tables tables' : Tables} (h : tables.Alike tables') (node : Node) :
    Alike Outcome.Alike (checkFunction tables node) (checkFunction tables' node) := by
  cases node with
  | function name parameters parameterTypes resultType body signature =>
    cases signature with
    | none => exact .misshapen ⟨rfl, h⟩
    | some signature =>
      refine .ensure (meets_bodyTables h signature parameters) ⟨rfl, h⟩ ?_
      intro inside inside' hinside
      exact (alike_block hinside body).map fun _ _ hbody => ⟨.function hbody.1, h.resume _ _⟩
  | _ => exact .misshapen ⟨rfl, h⟩

/-- Behind a function the tables are the same as in front of it, up to numbers. -/
theorem leaves_function (tables : Tables) (node : Node) :
    (checkFunction tables node).Leaves fun outcome => outcome.2.Alike tables := by
  cases node with
  | function name parameters parameterTypes resultType body signature =>
    cases signature with
    | none => exact .refl tables
    | some signature =>
      refine .ensure (.refl tables) fun inside => Checked.Leaves.map (P := fun _ => True) trivial ?_
      exact fun outcome _ => (Tables.Alike.refl tables).resume outcome.2 tables
  | _ => exact .refl tables

end BlockScript

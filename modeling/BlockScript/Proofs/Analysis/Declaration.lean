import Mathlib.Logic.Relation
import BlockScript.Proofs.Analysis.Annotation
import BlockScript.Proofs.Analysis.Yields
/-!
# Checking only declares

Whatever a check finds, and wherever it stops, the tables that it leaves behind are those that it
was given, with declarations in the innermost one. What blocks and functions declare inside is gone;
only the numbers stay in use.

## Main definitions

* `Tables.Declaration`, `Tables.Declares` — one declaration, and declarations one after the other

## Main results

* `declares_statement`, `declares_program` — what checks leave behind
-/

namespace BlockScript

namespace Tables

/-- One declaration in the innermost table. -/
inductive Declaration (tables : Tables) : Tables → Prop
  /-- A variable is declared. -/
  | define {name : String} {binding : Binding} {inner : StaticFrame} (fresh : Nat)
    (h : tables.inner.defineVariable name binding = .ok inner) :
    Declaration tables { tables with inner, fresh }
  /-- A function is declared. -/
  | function {name : String} {arity : Nat} {f : Signature} {inner : StaticFrame}
    (h : tables.inner.defineFunction name arity f = .ok inner) :
    Declaration tables { tables with inner }
  /-- Numbers of bindings are used up. -/
  | number (fresh : Nat) : Declaration tables { tables with fresh }

/-- Declarations one after the other. -/
abbrev Declares : Tables → Tables → Prop :=
  Relation.ReflTransGen Declaration

variable {tables after : Tables}

theorem Declares.of_declare {name : String} {type : Option Ty} {mutable isList : Bool}
    {binding : Binding} (h : tables.declare name type mutable isList = .ok (binding, after)) :
    tables.Declares after := by
  obtain ⟨hnew, -, rfl⟩ := declare_eq_ok_iff.mp h
  exact .single (.define _ (Frame.defineVariable_eq_ok_iff.mpr ⟨hnew, rfl⟩))

theorem Declares.of_declareFunction {f : Signature} (h : tables.declareFunction f = .ok after) :
    tables.Declares after := by
  obtain ⟨hnew, rfl⟩ := declareFunction_eq_ok_iff.mp h
  exact .single (.function (Frame.defineFunction_eq_ok_iff.mpr ⟨hnew, rfl⟩))

theorem Declares.resume (tables inside : Tables) : tables.Declares (tables.resume inside) :=
  .single (.number inside.fresh)

/-- The tables around the innermost one stay as they are. -/
theorem Declares.outer_eq (h : tables.Declares after) : after.outer = tables.outer := by
  induction h with
  | refl => rfl
  | tail _ hdeclaration ih => cases hdeclaration <;> exact ih

end Tables

open Tables (Declares)

namespace Checked

/-- Nothing is asked of what a check leaves behind. -/
theorem leaves_anything {α : Type} (x : Checked α) : x.Leaves fun _ => True :=
  trivial

/-- A requirement that, if it is met, is a declaration. -/
theorem leaves_ensure {α γ : Type} {P : α → Prop} {requirement : Except AnalysisError γ}
    {soFar : α} {next : γ → Checked α} (hsoFar : P soFar)
    (hnext : ∀ c, requirement = .ok c → (next c).Leaves P) :
    (Checked.ensure requirement soFar next).Leaves P := by
  cases requirement with
  | ok c => exact hnext c rfl
  | error e => exact hsoFar

end Checked

/-! ### Statements -/

/-- The cases of a switch declare nothing. -/
theorem declares_cases (condition : Option Ty) (nodes : List Node) : ∀ tables : Tables,
    (checkCases tables condition nodes).Leaves fun outcome => tables.Declares outcome.2 := by
  induction nodes with
  | nil => exact fun tables => .refl
  | cons node rest ih =>
    intro tables
    cases node with
    | case value body =>
      rw [checkCases]
      refine (Checked.leaves_anything _).bind (fun _ _ => .refl) fun value _ => ?_
      refine (Checked.leaves_anything _).bind (fun _ _ => .resume tables _) ?_
      rintro ⟨body, inside⟩ -
      refine (ih (tables.resume inside)).map ?_
      exact fun _ h => (Declares.resume tables inside).trans h
    | _ =>
      rw [checkCases]
      · exact (Checked.leaves_anything _).map fun _ _ => .refl
      · intro value body h
        cases h

theorem declares_statement (tables : Tables) (node : Node) :
    (checkStatement tables node).Leaves fun outcome => tables.Declares outcome.2 := by
  cases node with
  | discard expression =>
    rw [checkStatement]
    exact (Checked.leaves_anything _).bind (fun _ _ => .refl) fun _ _ => .ite .refl .refl
  | declaration name typeName value binding =>
    rw [checkStatement]
    refine .ite .refl (.ensure .refl fun declared => ?_)
    refine (Checked.leaves_anything _).bind (fun _ _ => .refl) ?_
    rintro ⟨value, ty⟩ -
    exact Checked.leaves_ensure .refl fun _ h => .of_declare h
  | assignment receiver value =>
    rw [checkStatement]
    refine .ite ((Checked.leaves_anything _).bind (fun _ _ => .refl) fun value _ => ?_) .refl
    refine (Checked.leaves_anything _).bind (fun _ _ => .refl) fun receiver _ => ?_
    exact .ensure .refl fun _ => .refl
  | branch condition thenBody elseBody =>
    rw [checkStatement]
    refine (Checked.leaves_anything _).bind (fun _ _ => .refl) fun condition _ => ?_
    refine .ensure .refl fun _ => .ite .refl ?_
    refine (Checked.leaves_anything _).bind (fun _ _ => .resume tables _) ?_
    exact fun _ _ => (Checked.leaves_anything _).map fun _ _ => .resume tables _
  | switch condition cases =>
    rw [checkStatement]
    refine (Checked.leaves_anything _).bind (fun _ _ => .refl) fun condition _ => ?_
    exact (declares_cases _ cases tables).map fun _ h => h
  | loop condition body =>
    rw [checkStatement]
    refine (Checked.leaves_anything _).bind (fun _ _ => .refl) fun condition _ => ?_
    exact .ensure .refl fun _ => (Checked.leaves_anything _).map fun _ _ => .resume tables _
  | ret value =>
    rw [checkStatement]
    refine (Checked.leaves_anything _).bind (fun _ _ => .refl) fun value _ => ?_
    exact .ensure .refl fun _ => .ensure .refl fun _ => .refl
  | _ => exact .refl

/-! ### Programs -/

theorem declares_global (tables : Tables) (node : Node) :
    (checkGlobal tables node).Leaves fun outcome => tables.Declares outcome.2 := by
  have hvalue : ∀ {name typeName value} {rebuilt : Node → Node}
      {next : Node → Option Ty → Checked (Node × Tables)},
      (∀ value ty, (next value ty).Leaves fun outcome => tables.Declares outcome.2) →
        (checkGlobalValue tables name typeName value rebuilt next).Leaves fun outcome =>
          tables.Declares outcome.2 := by
    intro name typeName value rebuilt next hnext
    refine .ite .refl (.ensure .refl fun declared => ?_)
    exact (Checked.leaves_anything _).bind (fun _ _ => .refl) fun found _ => hnext found.1 found.2
  cases node with
  | global name mutable typeName value isList binding =>
    exact hvalue fun value ty => Checked.leaves_ensure .refl fun _ h => .of_declare h
  | declaration name typeName value binding => exact hvalue fun value ty => .refl
  | _ => exact .refl

theorem declares_signature (tables : Tables) (node : Node) :
    (declareFunction tables node).Leaves fun outcome => tables.Declares outcome.2 := by
  cases node with
  | function name parameters parameterTypes resultType body signature =>
    refine .ensure .refl fun found => ?_
    exact Checked.leaves_ensure .refl fun _ h => .of_declareFunction h
  | _ => exact .refl

theorem declares_function (tables : Tables) (node : Node) :
    (checkFunction tables node).Leaves fun outcome => tables.Declares outcome.2 := by
  cases node with
  | function name parameters parameterTypes resultType body signature =>
    cases signature with
    | none => exact .refl
    | some signature =>
      refine .ensure .refl fun inside => ?_
      exact (Checked.leaves_anything _).map fun _ _ => .resume tables _
  | _ => exact .refl

theorem declares_each {check : Tables → Node → Checked (Node × Tables)}
    (hcheck : ∀ tables node, (check tables node).Leaves fun outcome => tables.Declares outcome.2)
    (tables : Tables) (nodes : List Node) :
    (checkEach check tables nodes).Leaves fun outcome => tables.Declares outcome.2 := by
  refine (leaves_each (R := fun _ _ => True) (I := tables.Declares) (fun _ => trivial) ?_ nodes
    tables .refl).2
  exact fun between hbetween node => ⟨trivial, hbetween.trans (hcheck between node)⟩

/-- The analysis of a program declares what it comes to, even if it stops at a fault. -/
theorem declares_program (tables : Tables) (node : Node) :
    (checkProgram tables node).Leaves fun outcome => tables.Declares outcome.2 := by
  cases node with
  | program globals functions =>
    rw [checkProgram]
    refine (Checked.leaves_anything _).bind (fun _ _ => .refl) fun _ _ => ?_
    refine (declares_each declares_global tables globals).bind (fun _ h => h) ?_
    rintro ⟨globals', behind⟩ hbehind
    refine (declares_each declares_signature behind functions).bind
      (fun _ h => hbehind.trans h) ?_
    rintro ⟨signed, declared⟩ hdeclared
    refine (declares_each declares_function declared signed).map ?_
    exact fun _ h => (hbehind.trans hdeclared).trans h
  | _ => exact .refl

end BlockScript

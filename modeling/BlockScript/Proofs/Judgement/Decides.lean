import BlockScript.Proofs.Analysis.Growth
import BlockScript.Proofs.Judgement.Rules
import BlockScript.Proofs.Scope
/-!
# Checks that decide

A check decides a statement if it finds no fault exactly when the statement is true. One lemma for
each way of combining checks says what is left to show; at the end of each path through a check
stands either the outcome, or a proof that the statement is false.

## Main definitions

* `Checked.Decides` — a check decides a statement
* `Judgement.Describes`, `Judgement.Situated` — an environment says what tables hold

## Main results

* `Checked.Decides.bind`, `Checked.Decides.ensure` — one check after another, and requirements
* `Judgement.Situated.declare`, `Judgement.Situated.enter` — tables and environments change together
-/

namespace BlockScript

namespace Checked

variable {α β γ : Type}

/-- A check finds no fault just if a statement is true, and then its outcome is as it should be. All
its faults are rules of the language that are broken. -/
structure Decides (x : Checked α) (statement : Prop) (outcome : α → Prop) : Prop where
  /-- Without a fault, the outcome is as it should be. -/
  sound : x.fault = none → outcome x.result
  /-- If the statement is true, there is no fault. -/
  complete : statement → x.fault = none
  /-- A fault is a rule that is broken. -/
  refused : ∀ fault, x.fault = some fault → ∃ e, fault = .refused e

namespace Decides

variable {statement part : Prop} {outcome : α → Prop} {next : α → Checked β} {goal : β → Prop}

theorem done {a : α} (h : outcome a) : Decides (.done a) statement outcome :=
  ⟨fun _ => h, fun _ => rfl, nofun⟩

theorem noted {level : Int} {text : String} {a : α} (h : outcome a) :
    Decides (.noted level text a) statement outcome :=
  ⟨fun _ => h, fun _ => rfl, nofun⟩

theorem refuse {a : α} {e : AnalysisError} (h : ¬statement) :
    Decides (.refuse a e) statement outcome := by
  refine ⟨nofun, fun hstatement => absurd hstatement h, ?_⟩
  rintro _ ⟨⟩
  exact ⟨e, rfl⟩

theorem map {x : Checked α} {f : α → β} (hx : Decides x statement outcome)
    (hf : ∀ a, outcome a → goal (f a)) : Decides (x.map f) statement goal :=
  ⟨fun h => hf _ (hx.sound h), hx.complete, hx.refused⟩

/-- The outcome may have other properties that are known of it. -/
theorem strengthen {x : Checked α} {other : α → Prop} (hx : Decides x statement outcome)
    (hother : ∀ a, x.Yields a → other a) :
    Decides x statement fun a => outcome a ∧ other a :=
  ⟨fun h => ⟨hx.sound h, hother _ ⟨h, rfl⟩⟩, hx.complete, hx.refused⟩

/-- A check that finds no fault if a part of a statement is true finds none if all of it is. -/
theorem weaken {x : Checked α} (hx : Decides x part outcome) (hpart : statement → part) :
    Decides x statement outcome :=
  ⟨hx.sound, fun h => hx.complete (hpart h), hx.refused⟩

/-- One check after another: the first one decides a part of the statement, and the second one the
statement itself. -/
theorem bind {x : Checked α} {soFar : α → β} (hx : Decides x part outcome)
    (hpart : statement → part) (hnext : ∀ a, outcome a → Decides (next a) statement goal) :
    Decides (x.bind soFar next) statement goal := by
  cases hfault : x.fault with
  | none =>
    have hnext := hnext _ (hx.sound hfault)
    rw [Checked.bind, hfault]
    exact ⟨hnext.sound, hnext.complete, hnext.refused⟩
  | some fault =>
    rw [Checked.bind, hfault]
    refine ⟨fun h => ?_, fun h => ?_, hx.refused⟩
    · rw [Checked.map, hfault] at h
      cases h
    · rw [hx.complete (hpart h)] at hfault
      cases hfault

/-- A requirement that the statement implies. -/
theorem ensure {requirement : Except AnalysisError γ} {soFar : β} {next : γ → Checked β}
    (hnext : ∀ c, requirement = .ok c → Decides (next c) statement goal)
    (herror : statement → ∃ c, requirement = .ok c) :
    Decides (.ensure requirement soFar next) statement goal := by
  cases requirement with
  | ok c => exact hnext c rfl
  | error e =>
    refine refuse fun hstatement => ?_
    obtain ⟨c, hc⟩ := herror hstatement
    cases hc

end Decides

end Checked

namespace Judgement

open Checked (Decides)
open Tables (WellFormed)

/-! ### Tables and environments -/

/-- What an environment says about a binding. -/
def Variable.Shows (v : Variable) (binding : Binding) : Prop :=
  binding.type = some v.type ∧ binding.mutable = v.mutable ∧ binding.isList = v.isList

/-- What an environment says about a signature. -/
def FunctionTy.Shows (f : FunctionTy) (signature : Signature) : Prop :=
  signature.parameters = f.parameters ∧ signature.result = f.result

/-- Names mean the same in an environment and in tables. The tables have the type of the result as
well, under a name that no source text has. -/
structure Describes (Γ : Environment) (chain : StaticChain) : Prop where
  /-- Variables are in both or in none. -/
  vars : ∀ name, name ≠ returnName →
    Option.Rel Variable.Shows (Γ.var? name) (chain.findVariable? name)
  /-- Functions are in both or in none. -/
  funs : ∀ name arity,
    Option.Rel FunctionTy.Shows (Γ.function? name arity) (chain.findFunction? name arity)
  /-- The type of the result is in both or in none. -/
  result : (chain.findVariable? returnName).map Binding.type = Γ.result?.map some
  /-- The tables are well formed. -/
  wellFormed : WellFormed chain

/-- An environment describes tables, and knows the names of the innermost one. -/
structure Situated (Γ : Environment) (tables : Tables) : Prop
    extends Describes Γ tables.chain where
  /-- The names of the innermost table are taken, and no others. -/
  taken : ∀ name, name ≠ returnName →
    (name ∈ Γ.taken ↔ tables.inner.findVariable? name ≠ none)

section

variable {Γ : Environment} {chain : StaticChain} {tables after : Tables} {name : String}

theorem exists_of_rel_some {α β : Type} {r : α → β → Prop} {a : α} {b? : Option β}
    (h : Option.Rel r (some a) b?) : ∃ b, b? = some b ∧ r a b := by
  cases h with
  | some hr => exact ⟨_, rfl, hr⟩

theorem exists_of_rel_some_right {α β : Type} {r : α → β → Prop} {a? : Option α} {b : β}
    (h : Option.Rel r a? (some b)) : ∃ a, a? = some a ∧ r a b := by
  cases h with
  | some hr => exact ⟨_, rfl, hr⟩

theorem Describes.exists_binding (h : Describes Γ chain) (hname : name ≠ returnName)
    {v : Variable} (hv : Γ.var? name = some v) :
    ∃ binding, chain.findVariable? name = some binding ∧ v.Shows binding :=
  exists_of_rel_some (hv ▸ h.vars name hname)

theorem Describes.exists_variable (h : Describes Γ chain) (hname : name ≠ returnName)
    {binding : Binding} (hbinding : chain.findVariable? name = some binding) :
    ∃ v, Γ.var? name = some v ∧ v.Shows binding :=
  exists_of_rel_some_right (hbinding ▸ h.vars name hname)

theorem Describes.exists_signature (h : Describes Γ chain) {arity : Nat} {f : FunctionTy}
    (hf : Γ.function? name arity = some f) :
    ∃ signature, chain.findFunction? name arity = some signature ∧ f.Shows signature :=
  exists_of_rel_some (hf ▸ h.funs name arity)

theorem Describes.exists_function (h : Describes Γ chain) {arity : Nat} {signature : Signature}
    (hsignature : chain.findFunction? name arity = some signature) :
    ∃ f, Γ.function? name arity = some f ∧ f.Shows signature :=
  exists_of_rel_some_right (hsignature ▸ h.funs name arity)

/-- A return can be checked where there is a result. -/
theorem Describes.resultTyAt_eq_ok_iff (h : Describes Γ chain) {type : Option Ty} :
    resultTyAt chain = .ok type ↔ ∃ ty, Γ.result? = some ty ∧ type = some ty := by
  have hresult := h.result
  unfold resultTyAt
  cases hfind : chain.findVariable? returnName with
  | none =>
    rw [hfind, Option.map_none, eq_comm, Option.map_eq_none_iff] at hresult
    simp [hresult]
  | some binding =>
    rw [hfind, Option.map_some, eq_comm, Option.map_eq_some_iff] at hresult
    obtain ⟨ty, hty, hbinding⟩ := hresult
    simp [hty, ← hbinding, eq_comm]

/-! ### Declarations and blocks -/

/-- A declaration does the same to an environment and to tables. -/
theorem Situated.declare (h : Situated Γ tables) {ty : Ty} {mutable isList : Bool}
    {binding : Binding}
    (hdeclare : tables.declare name (some ty) mutable isList = .ok (binding, after))
    (hname : name ≠ returnName) : Situated (Γ.declare name ⟨ty, mutable, isList⟩) after := by
  have hfind := fun other => Tables.findVariable?_of_declare other hdeclare
  have hwellFormed := h.wellFormed.declare hdeclare
  obtain ⟨-, rfl, hafter⟩ := Tables.declare_eq_ok_iff.mp hdeclare
  refine ⟨⟨fun other hother => ?_, fun other arity => ?_, ?_, hwellFormed⟩, fun other hother => ?_⟩
  · rw [(hfind other).2, Environment.declare]
    simp only [Function.update_apply]
    split_ifs
    · exact .some ⟨rfl, rfl, rfl⟩
    · exact h.vars other hother
  · have hfuns := h.funs other arity
    rw [hafter]
    exact hfuns
  · rw [(hfind returnName).2, if_neg hname.symm]
    exact h.result
  · rw [(hfind other).1, Environment.declare, Set.mem_insert_iff, h.taken other hother]
    split_ifs with heq <;> simp [heq]

/-- A name can be declared just if it is not taken. -/
theorem Situated.declare_isOk_iff (h : Situated Γ tables) (hname : name ≠ returnName)
    {type : Option Ty} {mutable isList : Bool} :
    (∃ declared, tables.declare name type mutable isList = .ok declared) ↔ name ∉ Γ.taken := by
  rw [h.taken name hname, not_not]
  constructor
  · rintro ⟨⟨binding, after⟩, hdeclare⟩
    exact (Tables.declare_eq_ok_iff.mp hdeclare).1
  · intro hnew
    exact ⟨_, Tables.declare_eq_ok_iff.mpr ⟨hnew, rfl, rfl⟩⟩

theorem Situated.enter (h : Situated Γ tables) : Situated Γ.enter tables.enter where
  vars := h.vars
  funs := h.funs
  result := h.result
  wellFormed := h.wellFormed.enter
  taken name _ := by simp [Environment.enter, Tables.enter, Frame.findVariable?]

theorem Situated.resume (h : Situated Γ tables) (inside : Tables) :
    Situated Γ (tables.resume inside) :=
  ⟨h.toDescribes, h.taken⟩

end

end Judgement

end BlockScript

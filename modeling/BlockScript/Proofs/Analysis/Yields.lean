import BlockScript.Analysis.Program
import BlockScript.Proofs.Scope
/-!
# What successful checks yield

A check that finds no fault yields its outcome. The lemmas say for every way of combining checks
what its parts have yielded if the whole has.

## Main definitions

* `Checked.Yields` — a check that finds no fault, and its outcome

## Main results

* `Checked.yields_bind`, `Checked.yields_ensure` — one check after another, and requirements
* `requireAccepted_eq_ok_iff`, `Tables.declare_eq_ok_iff` — requirements that are met
-/

namespace BlockScript

namespace Checked

variable {α β γ : Type}

/-- A check finds no fault and has the given outcome. -/
def Yields (x : Checked α) (result : α) : Prop :=
  x.fault = none ∧ x.result = result

/-- An outcome that is a pair consists of its parts. To say so first keeps an outcome that is still
to be computed from being computed when it is matched with a pair. -/
theorem Yields.parts {x : Checked (α × β)} {result : α × β} (h : x.Yields result) :
    x.Yields (result.1, result.2) :=
  h

@[simp]
theorem yields_done {a b : α} : (done a).Yields b ↔ a = b := by
  simp [Yields, done]

@[simp]
theorem yields_noted {level : Int} {text : String} {a b : α} :
    (noted level text a).Yields b ↔ a = b := by
  simp [Yields, noted]

@[simp]
theorem not_yields_refuse {a b : α} {e : AnalysisError} : ¬(refuse a e).Yields b := by
  simp [Yields, refuse]

@[simp]
theorem not_yields_misshapen {a b : α} {e : ShapeError} : ¬(misshapen a e).Yields b := by
  simp [Yields, misshapen]

@[simp]
theorem yields_map {x : Checked α} {f : α → β} {b : β} :
    (x.map f).Yields b ↔ ∃ a, x.Yields a ∧ f a = b := by
  simp [Yields, map, and_assoc]

/-- Two checks in a row: the second one continues with the outcome of the first one. -/
@[simp]
theorem yields_bind {x : Checked α} {soFar : α → β} {next : α → Checked β} {b : β} :
    (x.bind soFar next).Yields b ↔ ∃ a, x.Yields a ∧ (next a).Yields b := by
  unfold bind
  split
  next fault hfault => simp [Yields, map, hfault]
  next hfault => simp [Yields, hfault]

@[simp]
theorem yields_ensure {requirement : Except AnalysisError γ} {soFar : β}
    {next : γ → Checked β} {b : β} :
    (ensure requirement soFar next).Yields b ↔ ∃ c, requirement = .ok c ∧ (next c).Yields b := by
  cases requirement <;> simp [ensure]

end Checked

@[simp]
theorem requireAccepted_eq_ok_iff {target source : Option Ty} :
    requireAccepted target source = .ok () ↔ Ty.accepts target source = true := by
  simp [requireAccepted]

/-- Truth values are the only ones accepted as conditions. -/
theorem eq_boolean_of_accepts {ty : Ty} (h : Ty.accepts (some .boolean) (some ty) = true) :
    ty = .boolean := by
  cases ty <;> first | rfl | simp [Ty.accepts] at h

theorem StaticChain.findVariable_eq_ok_iff {chain : StaticChain} {name : String}
    {binding : Binding} :
    StaticChain.findVariable chain name = .ok binding ↔
      chain.findVariable? name = some binding := by
  unfold findVariable Chain.lookupVariable
  cases chain.findVariable? name with
  | none => exact iff_of_false nofun nofun
  | some found =>
    constructor
    · intro h
      cases h
      rfl
    · intro h
      cases h
      rfl

theorem StaticChain.findFunction_eq_ok_iff {chain : StaticChain} {name : String} {arity : Nat}
    {f : Signature} :
    StaticChain.findFunction chain name arity = .ok f ↔
      chain.findFunction? name arity = some f := by
  unfold findFunction Chain.lookupFunction
  cases chain.findFunction? name arity with
  | none => exact iff_of_false nofun nofun
  | some found =>
    constructor
    · intro h
      cases h
      rfl
    · intro h
      cases h
      rfl

/-- A declaration takes the next number and puts its binding behind the others. -/
theorem Tables.declare_eq_ok_iff {tables after : Tables} {name : String} {type : Option Ty}
    {mutable isList : Bool} {binding : Binding} :
    tables.declare name type mutable isList = .ok (binding, after) ↔
      tables.inner.findVariable? name = none ∧
        binding = { number := tables.fresh, name, type, mutable, isList } ∧
        after = { tables with
          inner := { tables.inner with vars := tables.inner.vars ++ [(name, binding)] }
          fresh := tables.fresh + 1 } := by
  unfold declare
  cases h : tables.inner.findVariable? name with
  | some found => simp [Frame.defineVariable, h]
  | none =>
    simp only [Frame.defineVariable, h, Except.ok.injEq, Prod.mk.injEq, true_and]
    constructor
    · rintro ⟨rfl, rfl⟩
      exact ⟨rfl, rfl⟩
    · rintro ⟨rfl, rfl⟩
      exact ⟨rfl, rfl⟩

/-- What names mean behind a declaration, in the innermost frame and in all of them. -/
theorem Tables.findVariable?_of_declare {tables after : Tables} {name : String} (other : String)
    {type : Option Ty} {mutable isList : Bool} {binding : Binding}
    (h : tables.declare name type mutable isList = .ok (binding, after)) :
    after.inner.findVariable? other =
        (if other = name then some binding else tables.inner.findVariable? other) ∧
      after.chain.findVariable? other =
        if other = name then some binding else tables.chain.findVariable? other := by
  obtain ⟨hnew, -, rfl⟩ := Tables.declare_eq_ok_iff.mp h
  have hdefine : tables.inner.defineVariable name binding =
      .ok { tables.inner with vars := tables.inner.vars ++ [(name, binding)] } :=
    Frame.defineVariable_eq_ok_iff.mpr ⟨hnew, rfl⟩
  have hinner : Frame.findVariable? _ other = _ := Frame.findVariable?_of_defineVariable hdefine
  simp only [Tables.chain, Chain.findVariable?_cons, hinner]
  split_ifs with hother
  · subst hother
    simp [hnew]
  · simp

theorem Tables.declareFunction_eq_ok_iff {tables after : Tables} {f : Signature} :
    tables.declareFunction f = .ok after ↔
      tables.inner.findFunction? f.name f.arity = none ∧
        after = { tables with
          inner := { tables.inner with
            funs := tables.inner.funs ++ [((f.name, f.arity), f)] } } := by
  unfold declareFunction
  cases h : tables.inner.findFunction? f.name f.arity <;>
    simp [Frame.defineFunction, h, eq_comm]

/-- What stands in place of a case and is none is never accepted. -/
theorem not_yields_strayCase {chain : StaticChain} {condition : Option Ty} {isLast : Bool}
    {node result : Node} : ¬(checkStrayCase chain condition isLast node).Yields result := by
  unfold checkStrayCase
  split
  · exact Checked.not_yields_misshapen
  · split
    · split
      · exact Checked.not_yields_misshapen
      · exact Checked.not_yields_refuse
    · split
      · exact Checked.not_yields_refuse
      · simp

end BlockScript

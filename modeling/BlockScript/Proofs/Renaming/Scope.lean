import BlockScript.Analysis.Statement
import BlockScript.Proofs.Renaming.Tree
import BlockScript.Proofs.Scope
import Mathlib.Data.Prod.Basic
/-!
# Scopes with other names

A renaming that gives different names to different variables, and to different functions, changes
nothing about scopes: a new name is found, defined and changed just where the old name was.

## Main definitions

* `Renaming.Separates`, `Renaming.Regular` — renamings that keep names apart
* `Frame.renamed` — a frame with new names
* `ScopeError.renamed` — an error about a new name

## Main results

* `Chain.lookupVariable_renamed`, `Chain.lookupFunction_renamed` — look-ups
* `Frame.defineVariable_renamed`, `Frame.defineFunction_renamed` — definitions
-/

namespace BlockScript

open Function (Injective)

namespace Renaming

/-- Different names stay different. -/
structure Separates (ρ : Renaming) : Prop where
  varName_injective : Injective ρ.varName
  funName_injective : Injective ρ.funName

/-- Different names stay different, and the names that are not the program's own stay as they are:
the one that stands for the result of a function, and those of `main` and `print`. -/
structure Regular (ρ : Renaming) : Prop extends ρ.Separates where
  varName_returnName : ρ.varName returnName = returnName
  funName_main : ρ.funName "main" = "main"
  funName_print : ρ.funName Signature.print.name = Signature.print.name
  funName_javaName : ρ.funName Signature.print.javaName = Signature.print.javaName

end Renaming

variable {V F W G : Type} {ρ : Renaming} {onVars : V → W} {onFuns : F → G}

/-- A frame with new names, and with other entries. -/
def Frame.renamed (ρ : Renaming) (onVars : V → W) (onFuns : F → G) (frame : Frame V F) :
    Frame W G :=
  { vars := frame.vars.map fun entry => (ρ.varName entry.1, onVars entry.2)
    funs := frame.funs.map fun entry => ((ρ.funName entry.1.1, entry.1.2), onFuns entry.2) }

/-- The same error about a new name. -/
def ScopeError.renamed (ρ : Renaming) : ScopeError → ScopeError
  | duplicateVariable name => duplicateVariable (ρ.varName name)
  | undefinedVariable name => undefinedVariable (ρ.varName name)
  | duplicateFunction name arity => duplicateFunction (ρ.funName name) arity
  | undefinedFunction name arity => undefinedFunction (ρ.funName name) arity

/-! ### Frames -/

/-- A look-up under another key, if different keys stay different. -/
theorem lookup_map_of_injective {K L : Type} [BEq K] [LawfulBEq K] [BEq L] [LawfulBEq L]
    {key : K → L} (hkey : Injective key) (entries : List (K × V)) (own : K) :
    (entries.map fun entry => (key entry.1, onVars entry.2)).lookup (key own) =
      (entries.lookup own).map onVars := by
  induction entries with
  | nil => rfl
  | cons entry rest ih =>
    obtain ⟨other, v⟩ := entry
    rw [List.map_cons, List.lookup_cons, List.lookup_cons, ih]
    by_cases hown : own = other
    · subst hown
      rw [beq_self_eq_true, beq_self_eq_true]
      rfl
    · rw [beq_eq_false_iff_ne.mpr hown, beq_eq_false_iff_ne.mpr (hkey.ne hown)]

namespace Frame

variable {frame : Frame V F} {name : String} {arity : Nat}

theorem findVariable?_renamed (hρ : ρ.Separates) :
    (frame.renamed ρ onVars onFuns).findVariable? (ρ.varName name) =
      (frame.findVariable? name).map onVars :=
  lookup_map_of_injective hρ.varName_injective frame.vars name

theorem findFunction?_renamed (hρ : ρ.Separates) :
    (frame.renamed ρ onVars onFuns).findFunction? (ρ.funName name) arity =
      (frame.findFunction? name arity).map onFuns := by
  have hkey : Injective fun key : String × Nat => (ρ.funName key.1, key.2) :=
    hρ.funName_injective.prodMap Function.injective_id
  exact lookup_map_of_injective hkey frame.funs (name, arity)

theorem defineVariable_renamed (hρ : ρ.Separates) {v : V} :
    (frame.renamed ρ onVars onFuns).defineVariable (ρ.varName name) (onVars v) =
      ((frame.defineVariable name v).map (Frame.renamed ρ onVars onFuns)).mapError
        (ScopeError.renamed ρ) := by
  rw [defineVariable, defineVariable, findVariable?_renamed hρ]
  cases frame.findVariable? name with
  | none => simp [Frame.renamed, Except.map, Except.mapError]
  | some found => rfl

theorem defineFunction_renamed (hρ : ρ.Separates) {f : F} :
    (frame.renamed ρ onVars onFuns).defineFunction (ρ.funName name) arity (onFuns f) =
      ((frame.defineFunction name arity f).map (Frame.renamed ρ onVars onFuns)).mapError
        (ScopeError.renamed ρ) := by
  rw [defineFunction, defineFunction, findFunction?_renamed hρ]
  cases frame.findFunction? name arity with
  | none => simp [Frame.renamed, Except.map, Except.mapError]
  | some found => rfl

theorem updateVariable_renamed (hρ : ρ.Separates) {change : V → V} {change' : W → W}
    (h : ∀ v, change' (onVars v) = onVars (change v)) :
    (frame.renamed ρ onVars onFuns).updateVariable (ρ.varName name) change' =
      (frame.updateVariable name change).renamed ρ onVars onFuns := by
  simp only [updateVariable, Frame.renamed, List.map_map, Frame.mk.injEq, and_true]
  apply List.map_congr_left
  intro entry _
  by_cases hname : entry.1 = name
  · simp [hname, h]
  · simp [hname, hρ.varName_injective.ne hname]

end Frame

/-! ### Nested frames -/

namespace Chain

variable {chain : Chain V F} {name : String} {arity : Nat}

theorem findVariable?_renamed (hρ : ρ.Separates) :
    Chain.findVariable? (chain.map (Frame.renamed ρ onVars onFuns)) (ρ.varName name) =
      (Chain.findVariable? chain name).map onVars := by
  induction chain with
  | nil => rfl
  | cons frame outer ih =>
    rw [List.map_cons, findVariable?_cons, findVariable?_cons, Frame.findVariable?_renamed hρ, ih]
    cases frame.findVariable? name <;> rfl

theorem findFunction?_renamed (hρ : ρ.Separates) :
    Chain.findFunction? (chain.map (Frame.renamed ρ onVars onFuns)) (ρ.funName name) arity =
      (Chain.findFunction? chain name arity).map onFuns := by
  induction chain with
  | nil => rfl
  | cons frame outer ih =>
    rw [List.map_cons, findFunction?_cons, findFunction?_cons, Frame.findFunction?_renamed hρ, ih]
    cases frame.findFunction? name arity <;> rfl

theorem lookupVariable_renamed (hρ : ρ.Separates) :
    Chain.lookupVariable (chain.map (Frame.renamed ρ onVars onFuns)) (ρ.varName name) =
      ((Chain.lookupVariable chain name).map onVars).mapError (ScopeError.renamed ρ) := by
  rw [lookupVariable, lookupVariable, findVariable?_renamed hρ]
  cases Chain.findVariable? chain name <;> rfl

theorem lookupFunction_renamed (hρ : ρ.Separates) :
    Chain.lookupFunction (chain.map (Frame.renamed ρ onVars onFuns)) (ρ.funName name) arity =
      ((Chain.lookupFunction chain name arity).map onFuns).mapError (ScopeError.renamed ρ) := by
  rw [lookupFunction, lookupFunction, findFunction?_renamed hρ]
  cases Chain.findFunction? chain name arity <;> rfl

theorem updateVariable_renamed (hρ : ρ.Separates) {change : V → V} {change' : W → W}
    (h : ∀ v, change' (onVars v) = onVars (change v)) :
    Chain.updateVariable (ρ.varName name) change' (chain.map (Frame.renamed ρ onVars onFuns)) =
      (Chain.updateVariable name change chain).map (Frame.renamed ρ onVars onFuns) := by
  induction chain with
  | nil => rfl
  | cons frame outer ih =>
    rw [List.map_cons, updateVariable, updateVariable, Frame.findVariable?_renamed hρ]
    cases frame.findVariable? name with
    | none => exact congrArg (_ :: ·) ih
    | some v => exact congrArg (· :: _) (Frame.updateVariable_renamed hρ h)

end Chain

end BlockScript

import BlockScript.Proofs.Renaming.Scope
import BlockScript.Proofs.Renaming.Source
/-!
# New names for a program

New names for a program need to be different only where the program has different names. Such a
renaming agrees on the names of the program with a permutation of all names, which leaves alone what
is no name.

## Main definitions

* `Renaming.Admissible` — new names for a program

## Main results

* `exists_perm_extending` — finitely many new names are part of a permutation
* `Renaming.Admissible.exists_regular` — new names for a program are part of new names for all
-/

namespace BlockScript

open Grammar (IsName)

/-- New names for a program: identifiers that are no keywords, different ones for different
variables and for different functions. The functions `main` and `print` keep their names, and no
other function is called like them. -/
structure Renaming.Admissible (ρ : Renaming) (program : Node) : Prop where
  varName_injOn : Set.InjOn ρ.varName {name | name ∈ program.variableNames}
  funName_injOn : Set.InjOn ρ.funName {name | name ∈ program.functionNames}
  isName_varName : ∀ name ∈ program.variableNames, IsName (ρ.varName name)
  isName_funName : ∀ name ∈ program.functionNames, IsName (ρ.funName name)
  funName_main : ρ.funName "main" = "main"
  funName_print : ρ.funName "print" = "print"
  ne_main : ∀ name ∈ program.functionNames, ρ.funName name = "main" → name = "main"
  ne_print : ∀ name ∈ program.functionNames, ρ.funName name = "print" → name = "print"

/-- An assignment of different values to finitely many elements is part of a permutation that leaves
all elements alone that do not have the property of those elements and values. -/
theorem exists_perm_extending {α : Type} [DecidableEq α] {P : α → Prop} {f : α → α} :
    ∀ {elements : List α}, Set.InjOn f {a | a ∈ elements} →
      (∀ a ∈ elements, P a ∧ P (f a)) →
      ∃ π : Equiv.Perm α, (∀ a ∈ elements, π a = f a) ∧ ∀ a, ¬P a → π a = a
  | [], _, _ => ⟨1, by simp, fun _ _ => rfl⟩
  | first :: rest, hf, hP => by
    have hrest : Set.InjOn f {a | a ∈ rest} := hf.mono fun a ha => List.mem_cons_of_mem first ha
    obtain ⟨hPfirst, hPrest⟩ := List.forall_mem_cons.mp hP
    obtain ⟨π, hπ, hfix⟩ := exists_perm_extending hrest hPrest
    by_cases hmem : first ∈ rest
    · exact ⟨π, List.forall_mem_cons.mpr ⟨hπ first hmem, hπ⟩, hfix⟩
    -- what is at the place of the first value trades places with it
    refine ⟨π.trans (Equiv.swap (π first) (f first)), List.forall_mem_cons.mpr ⟨?_, ?_⟩, ?_⟩
    · exact Equiv.swap_apply_left _ _
    · intro a ha
      have hne : a ≠ first := fun h => hmem (h ▸ ha)
      have hvalue : f a ≠ f first := fun h => hne (hf (List.mem_cons_of_mem first ha)
        List.mem_cons_self h)
      rw [Equiv.trans_apply, Equiv.swap_apply_of_ne_of_ne (π.injective.ne hne), hπ a ha]
      rw [hπ a ha]
      exact hvalue
    · intro a ha
      have hkept : P (π first) := by
        by_contra hnot
        have hself : π first = first := π.injective (hfix _ hnot)
        rw [hself] at hnot
        exact hnot hPfirst.1
      rw [Equiv.trans_apply, hfix a ha, Equiv.swap_apply_of_ne_of_ne]
      · exact fun h => ha (h ▸ hkept)
      · exact fun h => ha (h ▸ hPfirst.2)

/-- A permutation that moves names only takes names to names. -/
theorem isName_perm {π : Equiv.Perm String} (hfix : ∀ name, ¬IsName name → π name = name)
    {name : String} (h : IsName name) : IsName (π name) := by
  by_contra hnot
  have hself : π name = name := π.injective (hfix _ hnot)
  exact hnot (hself.symm ▸ h)

theorem isName_main : IsName "main" :=
  ⟨⟨.identifier, "main", 0⟩, by decide, by decide, rfl⟩

theorem isName_print : IsName Signature.print.name :=
  ⟨⟨.identifier, "print", 0⟩, by decide, by decide, rfl⟩

theorem not_isName_returnName : ¬IsName returnName := by
  intro h
  obtain ⟨c, rest, hchars, hstart, -⟩ := h.exists_cons
  have hchars' : returnName.toList = '<' :: "return>".toList := by decide
  rw [hchars', List.cons.injEq] at hchars
  rw [← hchars.1] at hstart
  exact absurd hstart (by decide)

theorem not_isName_javaName : ¬IsName Signature.print.javaName := by
  intro h
  obtain ⟨c, rest, hchars, -, hpart⟩ := h.exists_cons
  have hchars' : Signature.print.javaName.toList = 'S' :: "ystem.out.println".toList := by decide
  rw [hchars', List.cons.injEq] at hchars
  rw [← hchars.2] at hpart
  exact absurd (hpart '.' (by decide)) (by decide)

namespace Renaming.Admissible

variable {ρ : Renaming} {program : Node}

/-- The functions of the program get different names that are none of the two that are kept. -/
theorem injOn_functions (hρ : ρ.Admissible program) :
    Set.InjOn ρ.funName {name | name ∈ "main" :: "print" :: program.functionNames} := by
  intro name hname other hother hsame
  have hown : name ∈ program.functionNames → other ∈ program.functionNames → name = other :=
    fun h h' => hρ.funName_injOn h h' hsame
  have hmain := hρ.funName_main
  have hprint := hρ.funName_print
  have hneMain := hρ.ne_main
  have hnePrint := hρ.ne_print
  -- each of the two names is `main`, `print` or a name of the program
  simp only [Set.mem_ofPred_eq, List.mem_cons] at hname hother
  grind

theorem isName_functions (hρ : ρ.Admissible program)
    (hnames : ∀ name ∈ program.names, IsName name) :
    ∀ name ∈ "main" :: "print" :: program.functionNames, IsName name ∧ IsName (ρ.funName name) := by
  intro name hname
  obtain rfl | hname := List.mem_cons.mp hname
  · rw [hρ.funName_main]
    exact ⟨isName_main, isName_main⟩
  obtain rfl | hname := List.mem_cons.mp hname
  · rw [hρ.funName_print]
    exact ⟨isName_print, isName_print⟩
  exact ⟨hnames name (Node.mem_names program (.inr hname)), hρ.isName_funName name hname⟩

theorem isName_variables (hρ : ρ.Admissible program)
    (hnames : ∀ name ∈ program.names, IsName name) :
    ∀ name ∈ program.variableNames, IsName name ∧ IsName (ρ.varName name) := by
  intro name hname
  exact ⟨hnames name (Node.mem_names program (.inl hname)), hρ.isName_varName name hname⟩

/-- New names for a program are part of new names for all programs. -/
theorem exists_regular (hρ : ρ.Admissible program)
    (hnames : ∀ name ∈ program.names, IsName name) :
    ∃ τ : Renaming, τ.Regular ∧ τ.Readable ∧
      ρ.AgreeOn τ program.variableNames program.functionNames := by
  obtain ⟨π, hπ, hπfix⟩ := exists_perm_extending hρ.varName_injOn (hρ.isName_variables hnames)
  obtain ⟨σ, hσ, hσfix⟩ := exists_perm_extending hρ.injOn_functions (hρ.isName_functions hnames)
  obtain ⟨hmain, hσ⟩ := List.forall_mem_cons.mp hσ
  obtain ⟨hprint, hσ⟩ := List.forall_mem_cons.mp hσ
  have hregular : Renaming.Regular ⟨π, σ⟩ :=
    { varName_injective := π.injective
      funName_injective := σ.injective
      -- neither of these can be read as a name, and so they are left alone
      varName_returnName := hπfix returnName not_isName_returnName
      funName_javaName := hσfix _ not_isName_javaName
      funName_main := hmain.trans hρ.funName_main
      funName_print := hprint.trans hρ.funName_print }
  refine ⟨⟨π, σ⟩, hregular, ⟨isName_perm hπfix, isName_perm hσfix⟩, ?_⟩
  exact ⟨fun name h => (hπ name h).symm, fun name h => (hσ name h).symm⟩

end Renaming.Admissible

end BlockScript

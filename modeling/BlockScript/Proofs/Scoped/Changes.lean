import BlockScript.Proofs.Scoped.World
/-!
# What steps in a scope may change

A step in a scope defines variables in this scope only, puts values into mutable variables that the
scope sees, and changes items of lists. Scopes that are not seen from it keep their frames, all
scopes keep their parents, and lists keep their lengths. Steps that are taken one after the other
are one such step.

## Main definitions

* `Scoped.KeepsVariables`, `Scoped.FrameChange` — what may happen to a frame
* `Scoped.Changes` — what a step in a scope may do to a state

## Main results

* `Scoped.Changes.trans` — steps one after the other
* `Scoped.Changes.leave` — what was done in a new scope, seen from around it
* `Scoped.Changes.locals_eq` — a scope that is not changed sees the same frames
-/

namespace BlockScript

/-- The lengths of the lists, by handle. -/
def World.lengths (world : World) : List Nat :=
  world.heap.toList.map List.length

/-- Putting an item into a list keeps its length. -/
theorem World.lengths_set {world : World} {handle index : Nat} {value : Value} :
    World.lengths { world with
      heap := world.heap.modify handle fun items => items.set index value } = world.lengths := by
  apply List.ext_getElem?
  intro i
  simp only [lengths, Array.toList_modify, List.getElem?_map, List.getElem?_modify]
  cases world.heap.toList[i]? with
  | none => rfl
  | some items => by_cases h : handle = i <;> simp [h]

/-- A new list leaves the others as they are. -/
theorem World.lengths_push {world : World} {items : List Value} :
    World.lengths { world with heap := world.heap.push items } =
      world.lengths ++ [items.length] := by
  simp [lengths]

namespace Scoped

/-! ### One frame -/

/-- A variable stays a variable, and if it is not mutable, it keeps its value. -/
def KeepsVariables (before after : DynamicFrame) : Prop :=
  ∀ name slot, before.findVariable? name = some slot → ∃ slot',
    after.findVariable? name = some slot' ∧ slot'.mutable = slot.mutable ∧
      (slot.mutable = false → slot'.value = slot.value)

/-- What may happen to a frame: variables are added, which are mutable, and mutable variables get
other values. -/
structure FrameChange (before after : DynamicFrame) : Prop where
  /-- No function is defined. -/
  funs : after.funs = before.funs
  /-- Variables stay, and only mutable ones get other values. -/
  kept : KeepsVariables before after
  /-- A variable that was not there is mutable. -/
  added : ∀ name slot, before.findVariable? name = none →
    after.findVariable? name = some slot → slot.mutable = true

section

variable {before middle after : DynamicFrame} {name : String} {slot : Slot}

namespace KeepsVariables

theorem of_vars_eq (h : after.vars = before.vars) : KeepsVariables before after := by
  intro name slot hslot
  rw [Frame.findVariable?, ← h] at hslot
  exact ⟨slot, hslot, rfl, fun _ => rfl⟩

theorem trans (h : KeepsVariables before middle) (h' : KeepsVariables middle after) :
    KeepsVariables before after := by
  intro name slot hslot
  obtain ⟨slot₁, hslot₁, hmutable₁, hvalue₁⟩ := h name slot hslot
  obtain ⟨slot₂, hslot₂, hmutable₂, hvalue₂⟩ := h' name slot₁ hslot₁
  refine ⟨slot₂, hslot₂, hmutable₂.trans hmutable₁, fun hfixed => ?_⟩
  exact (hvalue₂ (hmutable₁.trans hfixed)).trans (hvalue₁ hfixed)

theorem of_defineVariable (h : before.defineVariable name slot = .ok after) :
    KeepsVariables before after := by
  intro other slot' hother
  refine ⟨slot', ?_, rfl, fun _ => rfl⟩
  rw [Frame.findVariable?_of_defineVariable h, hother, Option.some_or]

end KeepsVariables

namespace FrameChange

theorem refl (frame : DynamicFrame) : FrameChange frame frame where
  funs := rfl
  kept := .of_vars_eq rfl
  added _ _ h h' := absurd (h.symm.trans h') nofun

theorem trans (h : FrameChange before middle) (h' : FrameChange middle after) :
    FrameChange before after where
  funs := h'.funs.trans h.funs
  kept := h.kept.trans h'.kept
  added name slot hnone hslot := by
    cases hmiddle : middle.findVariable? name with
    | none => exact h'.added name slot hmiddle hslot
    | some slot₁ =>
      -- the variable was added by the first step and kept by the second
      obtain ⟨slot₂, hslot₂, hmutable₂, -⟩ := h'.kept name slot₁ hmiddle
      obtain rfl := Option.some.inj (hslot.symm.trans hslot₂)
      exact hmutable₂.trans (h.added name slot₁ hnone hmiddle)

/-- A definition adds a variable. -/
theorem of_defineVariable (hslot : slot.mutable = true)
    (h : before.defineVariable name slot = .ok after) : FrameChange before after where
  funs := by
    obtain ⟨-, rfl⟩ := Frame.defineVariable_eq_ok_iff.mp h
    rfl
  kept := .of_defineVariable h
  added other slot' hother hafter := by
    rw [Frame.findVariable?_of_defineVariable h, hother, Option.none_or] at hafter
    split at hafter
    · cases hafter
      exact hslot
    · cases hafter

/-- An assignment changes the value of a mutable variable. -/
theorem updateVariable (hfound : before.findVariable? name = some slot)
    (hslot : slot.mutable = true) (value : Value) :
    FrameChange before (before.updateVariable name fun slot => { slot with value }) where
  funs := rfl
  kept other slot' hother := by
    rw [Frame.findVariable?_updateVariable, hother]
    by_cases hname : other = name
    · subst hname
      obtain rfl := Option.some.inj (hother.symm.trans hfound)
      rw [if_pos rfl, Option.map_some]
      exact ⟨_, rfl, rfl, fun hfixed => absurd (hslot.symm.trans hfixed) nofun⟩
    · rw [if_neg hname]
      exact ⟨slot', rfl, rfl, fun _ => rfl⟩
  added other slot' hother hafter := by
    rw [Frame.findVariable?_updateVariable, hother] at hafter
    split at hafter <;> cases hafter

end FrameChange

end

/-! ### States -/

/-- What a step in a scope that defines variables there may do to a state. -/
structure Changes (place : Place) (names : List String) (σ σ' : State) : Prop where
  /-- Scopes are only added. -/
  next_le : σ.next ≤ σ'.next
  /-- A scope keeps the scope around it. -/
  parents : ∀ id < σ.next, σ'.scopes.parent? id = σ.scopes.parent? id
  /-- A scope that is not seen keeps its variables with their values. -/
  elsewhere : ∀ p, σ.Has p → p ∉ σ.path place → σ'.frame p = σ.frame p
  /-- The variables are defined behind those of the scope, and nothing in any other scope that was
  there. -/
  names_eq : ∀ p, σ.Has p →
    (σ'.frame p).names = (σ.frame p).names ++ if p = place then names else []
  /-- No function is defined, only mutable variables get other values, and variables that are
  defined, in new scopes too, are mutable. -/
  frames : ∀ p, FrameChange (σ.frame p) (σ'.frame p)
  /-- A list keeps its length. -/
  lengths : σ.world.lengths <+: σ'.world.lengths

namespace Changes

variable {place p : Place} {names names' : List String} {σ σ₁ σ' : State}

theorem refl (place : Place) (σ : State) : Changes place [] σ σ where
  next_le := le_rfl
  parents _ _ := rfl
  elsewhere _ _ _ := rfl
  names_eq _ _ := by simp
  frames p := .refl _
  lengths := List.prefix_refl _

theorem has (h : Changes place names σ σ') (hp : σ.Has p) : σ'.Has p := by
  cases p with
  | none => trivial
  | some id => exact Nat.lt_of_lt_of_le hp h.next_le

theorem path_eq (h : Changes place names σ σ') (hp : σ.Has p) : σ'.path p = σ.path p :=
  State.path_congr hp h.parents

/-- Steps one after the other define what each of them defines. -/
theorem trans (hplace : σ.Has place) (h : Changes place names σ σ₁)
    (h' : Changes place names' σ₁ σ') : Changes place (names ++ names') σ σ' where
  next_le := h.next_le.trans h'.next_le
  parents id hid := (h'.parents id (hid.trans_le h.next_le)).trans (h.parents id hid)
  elsewhere p hp hmem := by
    have hmem₁ : p ∉ σ₁.path place := by rwa [h.path_eq hplace]
    rw [h'.elsewhere p (h.has hp) hmem₁, h.elsewhere p hp hmem]
  names_eq p hp := by
    rw [h'.names_eq p (h.has hp), h.names_eq p hp, List.append_assoc]
    split <;> rfl
  frames p := (h.frames p).trans (h'.frames p)
  lengths := h.lengths.trans h'.lengths

/-- What changes the top scope at most changes no more than what another scope sees. -/
theorem widen (h : Changes none [] σ σ') : Changes place [] σ σ' where
  next_le := h.next_le
  parents := h.parents
  elsewhere p hp hmem := by
    apply h.elsewhere p hp
    rintro hnone
    obtain rfl := List.mem_singleton.mp hnone
    exact hmem State.none_mem_path
  names_eq p hp := by simpa using h.names_eq p hp
  frames := h.frames
  lengths := h.lengths

/-- What was done in a new scope may be done in the scope around it, and defines nothing there. -/
theorem leave (hplace : σ.Has place) (h : Changes (some σ.next) names (σ.opened place) σ') :
    Changes place [] σ σ' where
  next_le := by
    have hnext := h.next_le
    rw [State.next_opened] at hnext
    exact (Nat.le_succ _).trans hnext
  parents id hid := by
    have hlt : id < (σ.opened place).next := by
      rw [State.next_opened]
      exact Nat.lt_succ_of_lt hid
    exact (h.parents id hlt).trans (State.parent?_opened hid)
  elsewhere p hp hmem := by
    rw [h.elsewhere p (State.has_opened hp), State.frame_opened]
    rw [State.path_opened_self hplace]
    exact List.not_mem_cons_of_ne_of_not_mem (State.ne_next hp) hmem
  names_eq p hp := by
    rw [h.names_eq p (State.has_opened hp), State.frame_opened, if_neg (State.ne_next hp)]
    simp
  frames p := by simpa only [State.frame_opened] using h.frames p
  lengths := h.lengths

/-- A scope that is not changed sees the same frames. -/
theorem locals_eq (h : Changes none [] σ σ') (hp : σ.Has p) : σ'.locals p = σ.locals p := by
  rw [State.locals_eq_map_path, State.locals_eq_map_path, h.path_eq hp]
  apply List.map_congr_left
  intro q hq
  have hlocal : q ∉ σ.path none := by
    simpa [State.path] using State.ne_none_of_mem_dropLast hq
  exact h.elsewhere q (State.has_of_mem_path (List.dropLast_subset _ hq) hp) hlocal

end Changes

variable {place p : Place} {names : List String} {σ : State} {frame : DynamicFrame}

/-- Another frame for a scope that is seen. -/
theorem changes_setFrame (hplace : σ.Has place) (hp : p ∈ σ.path place)
    (hframe : FrameChange (σ.frame p) frame) (hnames : frame.names = (σ.frame p).names ++ names)
    (hdefined : names = [] ∨ p = place) : Changes place names σ (σ.setFrame p frame) where
  next_le := State.next_setFrame.ge
  parents _ _ := State.parent?_setFrame
  elsewhere q _ hmem := State.frame_setFrame_of_ne fun h => hmem (h ▸ hp)
  names_eq q hq := by
    by_cases hne : q = p
    · subst hne
      rw [State.frame_setFrame_self hq, hnames]
      obtain rfl | rfl := hdefined <;> simp
    · rw [State.frame_setFrame_of_ne hne]
      obtain rfl | rfl := hdefined <;> simp [hne]
  frames q := by
    by_cases hne : q = p
    · subst hne
      rwa [State.frame_setFrame_self (State.has_of_mem_path hp hplace)]
    · rw [State.frame_setFrame_of_ne hne]
      exact .refl _
  lengths := by simp [World.lengths]

/-- Lists and output may change without any scope. -/
theorem changes_world {world : World} (htop : world.top = σ.world.top)
    (hlengths : σ.world.lengths <+: world.lengths) : Changes none [] σ { σ with world } := by
  have hframe : ∀ p, State.frame { σ with world } p = σ.frame p := by
    rintro (_ | id)
    · exact htop
    · rfl
  exact {
    next_le := le_rfl
    parents := fun _ _ => rfl
    elsewhere := fun p _ _ => hframe p
    names_eq := fun p _ => by simp [hframe]
    frames := fun p => hframe p ▸ .refl _
    lengths := hlengths }

end Scoped

end BlockScript

import Mathlib.Data.List.Nodup
import Mathlib.Order.Nat
import BlockScript.Scope.Store
/-!
# Look-ups after a change

A definition or a change of a variable concerns one name in one frame; every other look-up finds
what it found before. In a store, what a scope sees is given by the parents, which stay the same, so
that a change in the frame where a name was found is a change in the chain of every scope that finds
it there.

## Main results

* `Frame.findVariable?_of_defineVariable`, `Frame.findVariable?_updateVariable` — look-ups in a
  frame after a change
* `Store.path_congr` — scopes see the same scopes if the parents are the same
* `Store.chain_updateVariable` — a change where a name was found, as a change of the chain
-/

namespace BlockScript

variable {V F : Type}

/-! ### One frame -/

namespace Frame

variable {frame after : Frame V F} {name other : String}

/-- The names of the variables, in the order of definition. -/
def names (frame : Frame V F) : List String :=
  frame.vars.map Prod.fst

theorem names_of_defineVariable {v : V} (h : frame.defineVariable name v = .ok after) :
    after.names = frame.names ++ [name] := by
  obtain ⟨-, rfl⟩ := defineVariable_eq_ok_iff.mp h
  simp [names]

theorem findVariable?_of_defineVariable {v : V} (h : frame.defineVariable name v = .ok after) :
    after.findVariable? other =
      (frame.findVariable? other).or (if other = name then some v else none) := by
  obtain ⟨-, rfl⟩ := defineVariable_eq_ok_iff.mp h
  rw [findVariable?, List.lookup_append, List.lookup_cons]
  by_cases hname : other = name
  · simp [hname, findVariable?]
  · simp [hname, findVariable?, beq_eq_false_iff_ne.mpr hname]

@[simp]
theorem names_updateVariable {change : V → V} :
    (frame.updateVariable name change).names = frame.names := by
  simp only [names, updateVariable, List.map_map]
  apply List.map_congr_left
  intro entry _
  by_cases hname : entry.1 = name <;> simp [hname]

theorem findVariable?_updateVariable {change : V → V} :
    (frame.updateVariable name change).findVariable? other =
      if other = name then (frame.findVariable? other).map change
      else frame.findVariable? other := by
  have hentries : ∀ entries : List (String × V),
      (entries.map fun entry =>
        if entry.1 = name then (entry.1, change entry.2) else entry).lookup other =
        if other = name then (entries.lookup other).map change else entries.lookup other := by
    intro entries
    induction entries with
    | nil => simp
    | cons entry rest ih =>
      obtain ⟨own, v⟩ := entry
      have hentry : (if own = name then (own, change v) else (own, v)) =
          (own, if own = name then change v else v) := by
        split <;> rfl
      rw [List.map_cons, hentry, List.lookup_cons, List.lookup_cons, ih]
      by_cases hown : other = own
      · subst hown
        by_cases hother : other = name <;> simp [hother]
      · simp [beq_eq_false_iff_ne.mpr hown]
  exact hentries frame.vars

end Frame

/-! ### Nested frames -/

namespace Chain

variable {frame : Frame V F} {outer : Chain V F} {name : String} {arity : Nat}

theorem findVariable?_cons : Chain.findVariable? (frame :: outer) name =
    (frame.findVariable? name).or (Chain.findVariable? outer name) := by
  rw [findVariable?, List.findSome?_cons]
  cases frame.findVariable? name <;> rfl

theorem findFunction?_cons : Chain.findFunction? (frame :: outer) name arity =
    (frame.findFunction? name arity).or (Chain.findFunction? outer name arity) := by
  rw [findFunction?, List.findSome?_cons]
  cases frame.findFunction? name arity <;> rfl

theorem findVariable?_append {inner : Chain V F} : Chain.findVariable? (inner ++ outer) name =
    (Chain.findVariable? inner name).or (Chain.findVariable? outer name) :=
  List.findSome?_append

theorem findFunction?_append {inner : Chain V F} :
    Chain.findFunction? (inner ++ outer) name arity =
      (Chain.findFunction? inner name arity).or (Chain.findFunction? outer name arity) :=
  List.findSome?_append

end Chain

/-! ### Scopes of a store -/

namespace Store

variable {store after : Store V F} {id p : Nat} {name : String}

theorem path_of_parent? {parent : { p : Nat // p < id }} (h : store.parent? id = some parent) :
    store.path id = id :: store.path parent := by
  rw [path, h]

theorem path_of_parent?_eq_none (h : store.parent? id = none) : store.path id = [id] := by
  rw [path, h]

theorem self_mem_path : id ∈ store.path id := by
  cases h : store.parent? id with
  | none => simp [path_of_parent?_eq_none h]
  | some parent => simp [path_of_parent? h]

theorem le_of_mem_path : p ∈ store.path id → p ≤ id := by
  induction id using Store.path.induct store with
  | case1 id parent hlt hparent ih =>
    intro h
    rw [path_of_parent? hparent] at h
    rcases List.mem_cons.mp h with rfl | h
    · exact le_refl _
    · exact (ih h).trans hlt.le
  | case2 id hparent =>
    intro h
    rw [path_of_parent?_eq_none hparent, List.mem_singleton] at h
    exact h.le

theorem nodup_path : (store.path id).Nodup := by
  induction id using Store.path.induct store with
  | case1 id parent hlt hparent ih =>
    rw [path_of_parent? hparent]
    exact List.nodup_cons.mpr ⟨fun h => absurd (le_of_mem_path h) (not_le_of_gt hlt), ih⟩
  | case2 id hparent =>
    rw [path_of_parent?_eq_none hparent]
    exact List.nodup_singleton id

/-- Scopes see the same scopes if the parents are the same. -/
theorem path_congr (h : ∀ p ≤ id, after.parent? p = store.parent? p) :
    after.path id = store.path id := by
  induction id using Store.path.induct store with
  | case1 id parent hlt hparent ih =>
    rw [path_of_parent? hparent, path_of_parent? ((h id le_rfl).trans hparent)]
    exact congrArg _ (ih fun p hp => h p (hp.trans hlt.le))
  | case2 id hparent =>
    rw [path_of_parent?_eq_none hparent, path_of_parent?_eq_none ((h id le_rfl).trans hparent)]

@[simp]
theorem parent?_setFrame {frame : Frame V F} :
    (store.setFrame p frame).parent? id = store.parent? id := by
  unfold parent? setFrame
  rw [Array.getElem?_modify]
  by_cases h : p = id
  · rw [if_pos h]
    rcases store.entries[id]? with _ | ⟨_ | _, _⟩ <;> rfl
  · rw [if_neg h]

@[simp]
theorem path_setFrame {frame : Frame V F} : (store.setFrame p frame).path id = store.path id :=
  path_congr fun _ _ => parent?_setFrame

@[simp]
theorem size_setFrame {frame : Frame V F} :
    (store.setFrame p frame).entries.size = store.entries.size := by
  simp [setFrame]

theorem frame_setFrame_self {frame : Frame V F} (h : p < store.entries.size) :
    (store.setFrame p frame).frame p = frame := by
  simp [setFrame, Store.frame, Array.getElem?_modify, Array.getElem?_eq_getElem h]

theorem frame_setFrame_of_ne {frame : Frame V F} (h : id ≠ p) :
    (store.setFrame p frame).frame id = store.frame id := by
  simp [setFrame, Store.frame, Array.getElem?_modify, h.symm]

/-- A number that is not in use has an empty frame. -/
theorem frame_of_size_le (h : store.entries.size ≤ id) : store.frame id = {} := by
  simp [Store.frame, Array.getElem?_eq_none h]

theorem lt_size_of_findVariable? {v : V} (h : (store.frame id).findVariable? name = some v) :
    id < store.entries.size := by
  by_contra hid
  rw [frame_of_size_le (not_lt.mp hid)] at h
  cases h

/-- Another frame for a scope is the innermost one of its chain. -/
theorem exists_chain_eq_cons (h : id < store.entries.size) (frame : Frame V F) :
    ∃ outer, store.chain id = store.frame id :: outer ∧
      (store.setFrame id frame).chain id = frame :: outer := by
  have hself : (store.setFrame id frame).frame id = frame := frame_setFrame_self h
  cases hparent : store.parent? id with
  | none =>
    refine ⟨[], ?_, ?_⟩ <;> simp [chain, path_of_parent?_eq_none hparent, hself]
  | some parent =>
    have houter : ∀ q ∈ store.path parent,
        (store.setFrame id frame).frame q = store.frame q := fun q hq =>
      frame_setFrame_of_ne ((le_of_mem_path hq).trans_lt parent.2).ne
    refine ⟨(store.path parent).map store.frame, ?_, ?_⟩
    · simp [chain, path_of_parent? hparent]
    · simpa [chain, path_of_parent? hparent, hself] using houter

/-! ### New scopes -/

theorem parent?_add_of_lt {parent : Option Nat} {frame : Frame V F}
    (h : id < store.entries.size) : (store.add parent frame).1.parent? id = store.parent? id := by
  rw [parent?, parent?, add, Array.getElem?_push, if_neg h.ne]

theorem path_add_of_lt {parent : Option Nat} {frame : Frame V F}
    (h : id < store.entries.size) : (store.add parent frame).1.path id = store.path id :=
  path_congr fun _ hp => parent?_add_of_lt (hp.trans_lt h)

theorem path_add_self_of_none {frame : Frame V F} :
    (store.add none frame).1.path store.entries.size = [store.entries.size] := by
  apply path_of_parent?_eq_none
  simp [add, parent?]

/-- A new scope sees what its parent sees. -/
theorem path_add_self {frame : Frame V F} (h : p < store.entries.size) :
    (store.add (some p) frame).1.path store.entries.size = store.entries.size :: store.path p := by
  have hparent : (store.add (some p) frame).1.parent? store.entries.size = some ⟨p, h⟩ := by
    simp [add, parent?, h]
  rw [path_of_parent? hparent, path_add_of_lt h]

theorem frame_add_of_ne {parent : Option Nat} {frame : Frame V F} (h : id ≠ store.entries.size) :
    (store.add parent frame).1.frame id = store.frame id := by
  simp [add, Store.frame, Array.getElem?_push, h]

theorem frame_add_self {parent : Option Nat} {frame : Frame V F} :
    (store.add parent frame).1.frame store.entries.size = frame := by
  simp [add, Store.frame]

/-! ### Where a name is found -/

theorem owner?_eq_none_iff :
    store.owner? id name = none ↔ Chain.findVariable? (store.chain id) name = none := by
  simp [owner?, Chain.findVariable?, chain]

theorem mem_path_of_owner? (h : store.owner? id name = some p) : p ∈ store.path id :=
  List.mem_of_find?_eq_some h

/-- A name means the variable of its owner. -/
theorem findVariable?_of_owner? (h : store.owner? id name = some p) :
    Chain.findVariable? (store.chain id) name = (store.frame p).findVariable? name := by
  rw [owner?] at h
  rw [chain]
  generalize store.path id = ids at h ⊢
  induction ids with
  | nil => cases h
  | cons q rest ih =>
    rw [List.map_cons, Chain.findVariable?_cons]
    rw [List.find?_cons] at h
    cases hq : (store.frame q).findVariable? name with
    | none =>
      rw [hq] at h
      exact ih h
    | some v =>
      rw [hq] at h
      obtain rfl := Option.some.inj h
      rw [hq, Option.some_or]

/-- A change where a name was found is a change of the chain. -/
theorem chain_updateVariable {change : V → V} (h : store.owner? id name = some p) :
    (store.setFrame p ((store.frame p).updateVariable name change)).chain id =
      Chain.updateVariable name change (store.chain id) := by
  have hsome : ((store.frame p).findVariable? name).isSome = true := by
    simpa using List.find?_some h
  obtain ⟨v, hv⟩ := Option.isSome_iff_exists.mp hsome
  have hself : (store.setFrame p ((store.frame p).updateVariable name change)).frame p =
      (store.frame p).updateVariable name change :=
    frame_setFrame_self (lt_size_of_findVariable? hv)
  have hnodup : (store.path id).Nodup := nodup_path
  rw [owner?] at h
  rw [chain, chain, path_setFrame]
  generalize store.path id = ids at h hnodup ⊢
  -- in front of the owner nothing has the name, and behind it nothing is changed
  induction ids with
  | nil => cases h
  | cons q rest ih =>
    rw [List.find?_cons] at h
    rw [List.map_cons, List.map_cons, Chain.updateVariable]
    cases hq : (store.frame q).findVariable? name with
    | none =>
      rw [hq] at h
      have hne : q ≠ p := by
        rintro rfl
        rw [hq] at hv
        cases hv
      rw [frame_setFrame_of_ne hne, ih h hnodup.of_cons]
    | some _ =>
      rw [hq] at h
      obtain rfl := Option.some.inj h
      rw [hself]
      congr 1
      apply List.map_congr_left
      intro r hr
      apply frame_setFrame_of_ne
      rintro rfl
      exact (List.nodup_cons.mp hnodup).1 hr

end Store

end BlockScript

import BlockScript.Proofs.Scoped.Output
import Mathlib.Data.List.Pairwise
import Mathlib.Data.List.Nodup
/-!
# Runs with more scopes

A scope without variables, and a variable that nobody asks for, make no difference to a run. To say
so, the state of a run is put beside that of another one that has more scopes: each scope that is
seen in the first state is linked to one that is seen in the second state, in the same order, and
what comes between these in the second state has hidden variables only. Lists, output and the top
frame are the same, and so are the scopes that were there from the beginning; the numbers of scopes
that were made since then may differ.

What a name means that is not hidden is found in scopes that are linked. So definitions and
assignments keep the states side by side, and so does the way into new scopes and back.

## Main definitions

* `Scoped.FrameTwin` — frames that differ in hidden variables
* `Scoped.Linked` — a scope with its link
* `Scoped.Twins` — two states side by side

## Main results

* `Scoped.Twins.lookupVariable_eq`, `Scoped.Twins.lookupFunction_eq` — names mean the same
* `Scoped.Twins.setFrame`, `Scoped.Twins.assign` — changes of variables
* `Scoped.Twins.opened`, `Scoped.Twins.leave`, `Scoped.Twins.back` — new scopes
-/

namespace BlockScript

namespace Scoped

/-! ### Frames -/

/-- A frame has the entries of another one, behind variables that are hidden. -/
structure FrameTwin (hidden : String → Prop) (frame frame' : DynamicFrame) : Prop where
  funs : frame'.funs = frame.funs
  vars : ∃ extra, frame'.vars = extra ++ frame.vars ∧ ∀ entry ∈ extra, hidden entry.1

namespace FrameTwin

variable {hidden : String → Prop} {frame frame' : DynamicFrame} {name : String}

theorem refl (frame : DynamicFrame) : FrameTwin hidden frame frame :=
  ⟨rfl, [], rfl, List.forall_mem_nil _⟩

/-- A variable that is not hidden is found in both frames, or in none of them. -/
theorem findVariable?_eq (h : FrameTwin hidden frame frame') (hname : ¬hidden name) :
    frame'.findVariable? name = frame.findVariable? name := by
  obtain ⟨extra, hvars, hextra⟩ := h.vars
  have hnone : extra.lookup name = none := by
    rw [List.lookup_eq_none_iff]
    intro entry hentry
    have hne : name ≠ entry.1 := fun heq => hname (heq ▸ hextra entry hentry)
    simpa using hne
  rw [Frame.findVariable?, hvars, List.lookup_append, hnone, Option.none_or]
  rfl

theorem findFunction?_eq (h : FrameTwin hidden frame frame') (name : String) (arity : Nat) :
    frame'.findFunction? name arity = frame.findFunction? name arity := by
  rw [Frame.findFunction?, h.funs]
  rfl

/-- A definition succeeds in both frames, or fails in both. -/
theorem defineVariable (h : FrameTwin hidden frame frame') (hname : ¬hidden name) (slot : Slot) :
    (∃ after after', frame.defineVariable name slot = .ok after ∧
      frame'.defineVariable name slot = .ok after' ∧ FrameTwin hidden after after') ∨
    ∃ e, frame.defineVariable name slot = .error e ∧
      frame'.defineVariable name slot = .error e := by
  have hfound := h.findVariable?_eq hname
  unfold Frame.defineVariable
  rw [hfound]
  cases frame.findVariable? name with
  | some _ => exact .inr ⟨_, rfl, rfl⟩
  | none =>
    obtain ⟨extra, hvars, hextra⟩ := h.vars
    refine .inl ⟨_, _, rfl, rfl, h.funs, extra, ?_, hextra⟩
    rw [hvars, List.append_assoc]

/-- A change of a variable that is not hidden leaves the hidden ones as they are. -/
theorem updateVariable (h : FrameTwin hidden frame frame') (hname : ¬hidden name)
    (change : Slot → Slot) :
    FrameTwin hidden (frame.updateVariable name change) (frame'.updateVariable name change) := by
  obtain ⟨extra, hvars, hextra⟩ := h.vars
  refine ⟨h.funs, extra, ?_, hextra⟩
  have hkept : (extra.map fun entry =>
      if entry.1 = name then (entry.1, change entry.2) else entry) = extra := by
    refine (List.map_congr_left fun entry hentry => if_neg ?_).trans (List.map_id' extra)
    exact fun heq => hname (heq ▸ hextra entry hentry)
  rw [Frame.updateVariable, hvars, List.map_append, hkept]
  rfl

end FrameTwin

/-! ### The scopes that are seen -/

namespace State

variable {σ : State} {place p : Place} {name : String} {id : Nat}

/-- The numbers of the local scopes that a scope sees, from itself outwards. -/
def ids (σ : State) : Place → List Nat
  | none => []
  | some id => σ.scopes.path id

theorem path_eq_ids : σ.path place = (σ.ids place).map some ++ [none] := by
  cases place <;> rfl

theorem locals_eq_map_ids : σ.locals place = (σ.ids place).map σ.scopes.frame := by
  cases place <;> rfl

theorem owner_eq_find? : σ.owner place name =
    (σ.ids place).find? fun id => ((σ.scopes.frame id).findVariable? name).isSome := by
  cases place <;> rfl

theorem nodup_ids : (σ.ids place).Nodup := by
  cases place with
  | none => exact List.nodup_nil
  | some id => exact Store.nodup_path

theorem lt_next_of_mem_ids (hplace : σ.Has place) (h : id ∈ σ.ids place) : id < σ.next := by
  have hmem : some id ∈ σ.path place := by
    rw [path_eq_ids]
    exact List.mem_append_left _ (List.mem_map_of_mem h)
  exact has_of_mem_path hmem hplace

theorem ids_eq_of_path_eq {after : State} (h : after.path p = σ.path p) :
    after.ids p = σ.ids p := by
  rw [path_eq_ids, path_eq_ids] at h
  exact List.map_injective_iff.mpr (fun _ _ => Option.some.inj) (List.append_cancel_right h)

theorem ids_opened_self (h : σ.Has place) :
    (σ.opened place).ids (some σ.next) = σ.next :: σ.ids place := by
  cases place with
  | none => exact Store.path_add_self_of_none
  | some id => exact Store.path_add_self h

theorem ids_setFrame {frame : DynamicFrame} : (σ.setFrame place frame).ids p = σ.ids p := by
  cases p with
  | none => rfl
  | some id => exact Store.path_congr fun _ _ => parent?_setFrame

theorem scopeFrame_opened : (σ.opened place).scopes.frame id = σ.scopes.frame id :=
  frame_opened (p := some id)

/-- A new scope is empty. -/
theorem frame_opened_self : (σ.opened place).scopes.frame σ.next = {} :=
  Store.frame_add_self

end State

theorem Changes.ids_eq {place p : Place} {names : List String} {σ σ' : State}
    (h : Changes place names σ σ') (hp : σ.Has p) : σ'.ids p = σ.ids p :=
  State.ids_eq_of_path_eq (h.path_eq hp)

/-! ### States side by side -/

variable {hidden : String → Prop} {count : Nat} {σ σ' τ τ' : State}
  {link : Option Nat × Nat} {links : List (Option Nat × Nat)} {place place' : Place}

/-- A scope of the second state belongs to one of the first: it is the same scope and was there from
the beginning, or both are newer and have the same variables as far as these are not hidden. A scope
without a counterpart has hidden variables only. -/
inductive Linked (hidden : String → Prop) (count : Nat) (σ σ' : State) : Option Nat × Nat → Prop
  | old {id} : id < count → Linked hidden count σ σ' (some id, id)
  | new {id id'} : count ≤ id → count ≤ id' →
      FrameTwin hidden (σ.scopes.frame id) (σ'.scopes.frame id') →
      Linked hidden count σ σ' (some id, id')
  | extra {id'} : count ≤ id' → FrameTwin hidden {} (σ'.scopes.frame id') →
      Linked hidden count σ σ' (none, id')

/-- Two states side by side, with what a scope of the first and a scope of the second see. -/
structure Twins (hidden : String → Prop) (count : Nat) (links : List (Option Nat × Nat))
    (place place' : Place) (σ σ' : State) : Prop where
  world_eq : σ'.world = σ.world
  has : σ.Has place
  has' : σ'.Has place'
  le : count ≤ σ.next
  le' : count ≤ σ'.next
  /-- The scopes that were there from the beginning are the same. -/
  old : ∀ id < count, σ'.scopes.frame id = σ.scopes.frame id
  ids_eq : σ.ids place = links.filterMap Prod.fst
  ids_eq' : σ'.ids place' = links.map Prod.snd
  linked : ∀ link ∈ links, Linked hidden count σ σ' link

/-- A state is its own twin. -/
theorem Twins.refl (hplace : σ.Has place) :
    Twins hidden σ.next ((σ.ids place).map fun id => (some id, id)) place place σ σ where
  world_eq := rfl
  has := hplace
  has' := hplace
  le := le_rfl
  le' := le_rfl
  old _ _ := rfl
  ids_eq := by simp [List.filterMap_map]
  ids_eq' := by simp [Function.comp_def]
  linked := by
    rw [List.forall_mem_map]
    exact fun id hid => .old (State.lt_next_of_mem_ids hplace hid)

/-- Scopes that are linked have the same frames up to hidden variables. -/
theorem Linked.frameTwin (h : Linked hidden count σ σ' link)
    (hold : ∀ id < count, σ'.scopes.frame id = σ.scopes.frame id) :
    FrameTwin hidden (link.1.elim {} σ.scopes.frame) (σ'.scopes.frame link.2) := by
  cases h with
  | old hid => exact hold _ hid ▸ .refl _
  | new _ _ h => exact h
  | extra _ h => exact h

section

variable {name : String} (hold : ∀ id < count, σ'.scopes.frame id = σ.scopes.frame id)
  (hlinked : ∀ link ∈ links, Linked hidden count σ σ' link)

include hold hlinked

theorem findVariable?_links (hname : ¬hidden name) :
    Chain.findVariable? ((links.map Prod.snd).map σ'.scopes.frame) name =
      Chain.findVariable? ((links.filterMap Prod.fst).map σ.scopes.frame) name := by
  induction links with
  | nil => rfl
  | cons link rest ih =>
    obtain ⟨hlink, hrest⟩ := List.forall_mem_cons.mp hlinked
    have hframe := (hlink.frameTwin hold).findVariable?_eq hname
    rw [List.map_cons, List.map_cons, Chain.findVariable?_cons, hframe, ih hrest]
    obtain ⟨_ | id, id'⟩ := link
    · rfl
    · rw [List.filterMap_cons, List.map_cons, Chain.findVariable?_cons]
      rfl

theorem findFunction?_links (name : String) (arity : Nat) :
    Chain.findFunction? ((links.map Prod.snd).map σ'.scopes.frame) name arity =
      Chain.findFunction? ((links.filterMap Prod.fst).map σ.scopes.frame) name arity := by
  induction links with
  | nil => rfl
  | cons link rest ih =>
    obtain ⟨hlink, hrest⟩ := List.forall_mem_cons.mp hlinked
    have hframe := (hlink.frameTwin hold).findFunction?_eq name arity
    rw [List.map_cons, List.map_cons, Chain.findFunction?_cons, hframe, ih hrest]
    obtain ⟨_ | id, id'⟩ := link
    · rfl
    · rw [List.filterMap_cons, List.map_cons, Chain.findFunction?_cons]
      rfl

/-- The scopes in which a name is found are linked, if it is found in local scopes. -/
theorem find?_links (hname : ¬hidden name) :
    let found (σ : State) (id : Nat) : Bool := ((σ.scopes.frame id).findVariable? name).isSome
    ((links.filterMap Prod.fst).find? (found σ) = none ∧
      (links.map Prod.snd).find? (found σ') = none) ∨
    ∃ id id', (some id, id') ∈ links ∧
      (links.filterMap Prod.fst).find? (found σ) = some id ∧
      (links.map Prod.snd).find? (found σ') = some id' := by
  intro found
  induction links with
  | nil => exact .inl ⟨rfl, rfl⟩
  | cons link rest ih =>
    obtain ⟨hlink, hrest⟩ := List.forall_mem_cons.mp hlinked
    have hframe := (hlink.frameTwin hold).findVariable?_eq hname
    obtain ⟨_ | id, id'⟩ := link
    · -- a scope without a counterpart does not have the name
      have hnot : found σ' id' = false := congrArg Option.isSome hframe
      have hskip := List.find?_cons_of_neg (l := rest.map Prod.snd) (Bool.eq_false_iff.mp hnot)
      rcases ih hrest with ⟨hnone, hnone'⟩ | ⟨p, p', hmem, hp, hp'⟩
      · exact .inl ⟨hnone, hskip.trans hnone'⟩
      · exact .inr ⟨p, p', List.mem_cons_of_mem _ hmem, hp, hskip.trans hp'⟩
    · have hsame : found σ' id' = found σ id := congrArg Option.isSome hframe
      by_cases hhas : found σ id = true
      · exact .inr ⟨id, id', List.mem_cons_self, List.find?_cons_of_pos hhas,
          List.find?_cons_of_pos (hsame.trans hhas)⟩
      · have hskip := List.find?_cons_of_neg (l := rest.filterMap Prod.fst) hhas
        have hskip' := List.find?_cons_of_neg (l := rest.map Prod.snd) (hsame ▸ hhas)
        rcases ih hrest with ⟨hnone, hnone'⟩ | ⟨p, p', hmem, hp, hp'⟩
        · exact .inl ⟨hskip.trans hnone, hskip'.trans hnone'⟩
        · exact .inr ⟨p, p', List.mem_cons_of_mem _ hmem, hskip.trans hp, hskip'.trans hp'⟩

end

/-- A link stays if its scopes keep their frames. -/
theorem Linked.congr (h : Linked hidden count σ σ' link)
    (hframe : ∀ id, link.1 = some id → τ.scopes.frame id = σ.scopes.frame id)
    (hframe' : τ'.scopes.frame link.2 = σ'.scopes.frame link.2) :
    Linked hidden count τ τ' link := by
  cases h with
  | old hid => exact .old hid
  | new hid hid' h =>
    refine .new hid hid' ?_
    rw [hframe _ rfl, hframe']
    exact h
  | extra hid' h =>
    refine .extra hid' ?_
    rw [hframe']
    exact h

namespace Twins

variable {name : String} {id id' : Nat}

/-! ### What names mean -/

theorem lookupVariable_eq (h : Twins hidden count links place place' σ σ')
    (hname : ¬hidden name) :
    Chain.lookupVariable (σ'.locals place' ++ σ'.world.outerChain) name =
      Chain.lookupVariable (σ.locals place ++ σ.world.outerChain) name := by
  have hfind := findVariable?_links h.old h.linked hname
  rw [← h.ids_eq, ← h.ids_eq', ← State.locals_eq_map_ids, ← State.locals_eq_map_ids] at hfind
  rw [Chain.lookupVariable, Chain.lookupVariable, Chain.findVariable?_append,
    Chain.findVariable?_append, hfind, h.world_eq]

theorem lookupFunction_eq (h : Twins hidden count links place place' σ σ') (arity : Nat) :
    Chain.lookupFunction (σ'.locals place' ++ σ'.world.outerChain) name arity =
      Chain.lookupFunction (σ.locals place ++ σ.world.outerChain) name arity := by
  have hfind := findFunction?_links h.old h.linked name arity
  rw [← h.ids_eq, ← h.ids_eq', ← State.locals_eq_map_ids, ← State.locals_eq_map_ids] at hfind
  rw [Chain.lookupFunction, Chain.lookupFunction, Chain.findFunction?_append,
    Chain.findFunction?_append, hfind, h.world_eq]

/-- A name is found in the top scopes, or in local scopes that are linked. -/
theorem owner_eq (h : Twins hidden count links place place' σ σ') (hname : ¬hidden name) :
    (σ.owner place name = none ∧ σ'.owner place' name = none) ∨
    ∃ id id', (some id, id') ∈ links ∧ σ.owner place name = some id ∧
      σ'.owner place' name = some id' := by
  rw [State.owner_eq_find?, State.owner_eq_find?, h.ids_eq, h.ids_eq']
  exact find?_links h.old h.linked hname

/-! ### Changes of frames -/

/-- Scopes that are linked were made already. -/
theorem lt_next (h : Twins hidden count links place place' σ σ')
    (hlink : (some id, id') ∈ links) : id < σ.next := by
  apply State.lt_next_of_mem_ids h.has
  rw [h.ids_eq]
  exact List.mem_filterMap.mpr ⟨_, hlink, rfl⟩

theorem lt_next' (h : Twins hidden count links place place' σ σ') (hlink : link ∈ links) :
    link.2 < σ'.next := by
  apply State.lt_next_of_mem_ids h.has'
  rw [h.ids_eq']
  exact List.mem_map_of_mem hlink

/-- Links do not share scopes of the second state. -/
theorem link_eq (h : Twins hidden count links place place' σ σ') {other : Option Nat × Nat}
    (hlink : link ∈ links) (hother : other ∈ links) (heq : other.2 = link.2) : other = link := by
  have hnodup : (links.map Prod.snd).Nodup := h.ids_eq' ▸ State.nodup_ids
  exact List.inj_on_of_nodup_map hnodup hother hlink heq

/-- Links share scopes of the first state if they share those of the second. -/
theorem link_eq_iff (h : Twins hidden count links place place' σ σ') {p p' : Nat}
    (hlink : (some id, id') ∈ links) (hother : (some p, p') ∈ links) : p = id ↔ p' = id' := by
  have hnodup : (links.filterMap Prod.fst).Nodup := h.ids_eq ▸ State.nodup_ids
  constructor
  · intro heq
    by_contra hne
    -- the numbers in the links come from a list without duplicates
    have hsymm : Std.Symm fun l m : Option Nat × Nat =>
        ∀ a, l.1 = some a → ∀ b, m.1 = some b → a ≠ b :=
      ⟨fun _ _ h a ha b hb => (h b hb a ha).symm⟩
    have hapart := (List.pairwise_filterMap.mp hnodup).forall hlink hother
      fun hsame => hne (congrArg Prod.snd hsame).symm
    exact hapart id rfl p rfl heq.symm
  · intro heq
    exact Option.some.inj (congrArg Prod.fst (h.link_eq hlink hother heq))

/-- Frames that belong together replace those of scopes that are linked. -/
theorem setFrame (h : Twins hidden count links place place' σ σ')
    (hlink : (some id, id') ∈ links) {frame frame' : DynamicFrame}
    (hframe : FrameTwin hidden frame frame') (hkept : id < count → frame' = frame) :
    Twins hidden count links place place' (σ.setFrame (some id) frame)
      (σ'.setFrame (some id') frame') := by
  have hself : (σ.setFrame (some id) frame).scopes.frame id = frame :=
    Store.frame_setFrame_self (h.lt_next hlink)
  have hself' : (σ'.setFrame (some id') frame').scopes.frame id' = frame' :=
    Store.frame_setFrame_self (h.lt_next' hlink)
  have hother : ∀ p ≠ id, (σ.setFrame (some id) frame).scopes.frame p = σ.scopes.frame p :=
    fun _ hne => Store.frame_setFrame_of_ne hne
  have hother' : ∀ p ≠ id', (σ'.setFrame (some id') frame').scopes.frame p = σ'.scopes.frame p :=
    fun _ hne => Store.frame_setFrame_of_ne hne
  exact {
    world_eq := h.world_eq
    has := State.has_setFrame h.has
    has' := State.has_setFrame h.has'
    le := State.next_setFrame.symm ▸ h.le
    le' := State.next_setFrame.symm ▸ h.le'
    old := fun p hp => by
      by_cases heq : p = id'
      · subst heq
        -- the scope is linked to itself, since it was there from the beginning
        cases h.linked _ hlink with
        | old hid => rw [hself, hself', hkept hid]
        | new _ hnew _ => exact absurd hp (Nat.not_lt.mpr hnew)
      · -- nor is it the scope in the first state, which would be linked to itself
        have hne : p ≠ id := by
          rintro rfl
          cases h.linked _ hlink with
          | old _ => exact heq rfl
          | new hnew _ _ => exact absurd hp (Nat.not_lt.mpr hnew)
        rw [hother p hne, hother' p heq]
        exact h.old p hp
    ids_eq := State.ids_setFrame.trans h.ids_eq
    ids_eq' := State.ids_setFrame.trans h.ids_eq'
    linked := by
      rintro ⟨_ | p, p'⟩ hmem
      · have hne : p' ≠ id' := by
          intro heq
          cases h.link_eq hlink hmem heq
        exact (h.linked _ hmem).congr nofun (hother' p' hne)
      · by_cases heq : p = id
        · have heq' := (h.link_eq_iff hlink hmem).mp heq
          subst heq heq'
          cases h.linked _ hlink with
          | old hid => exact .old hid
          | new hnew hnew' _ =>
            refine .new hnew hnew' ?_
            rw [hself, hself']
            exact hframe
        · have hne' := mt (h.link_eq_iff hlink hmem).mpr heq
          refine (h.linked _ hmem).congr (fun q hq => ?_) (hother' p' hne')
          obtain rfl := Option.some.inj hq
          exact hother _ heq }

/-- A scope without a counterpart gets another frame with hidden variables. -/
theorem setExtra (h : Twins hidden count links place place' σ σ')
    (hlink : (none, id') ∈ links) {frame : DynamicFrame} (hframe : FrameTwin hidden {} frame) :
    Twins hidden count links place place' σ (σ'.setFrame (some id') frame) := by
  have hnew : count ≤ id' := by
    cases h.linked _ hlink with
    | extra hnew _ => exact hnew
  have hself : (σ'.setFrame (some id') frame).scopes.frame id' = frame :=
    Store.frame_setFrame_self (h.lt_next' hlink)
  have hother : ∀ p ≠ id', (σ'.setFrame (some id') frame).scopes.frame p = σ'.scopes.frame p :=
    fun _ hne => Store.frame_setFrame_of_ne hne
  exact {
    world_eq := h.world_eq
    has := h.has
    has' := State.has_setFrame h.has'
    le := h.le
    le' := State.next_setFrame.symm ▸ h.le'
    old := fun p hp => (hother p (hp.trans_le hnew).ne).trans (h.old p hp)
    ids_eq := h.ids_eq
    ids_eq' := State.ids_setFrame.trans h.ids_eq'
    linked := by
      rintro ⟨first, p'⟩ hmem
      by_cases heq : p' = id'
      · rw [h.link_eq hlink hmem heq]
        refine .extra hnew ?_
        rw [hself]
        exact hframe
      · exact (h.linked _ hmem).congr (fun _ _ => rfl) (hother p' heq) }

/-- What is done to the top frame, the lists or the output is done to both states. -/
theorem withWorld (h : Twins hidden count links place place' σ σ') (world : World) :
    Twins hidden count links place place' { σ with world } { σ' with world } where
  world_eq := rfl
  has := by cases place <;> exact h.has
  has' := by cases place' <;> exact h.has'
  le := h.le
  le' := h.le'
  old := h.old
  ids_eq := by cases place <;> exact h.ids_eq
  ids_eq' := by cases place' <;> exact h.ids_eq'
  linked := fun link hmem => (h.linked link hmem).congr (fun _ _ => rfl) rfl

/-- An assignment changes variables that belong together. -/
theorem assign (h : Twins hidden count links place place' σ σ') (hname : ¬hidden name)
    (value : Value) :
    Twins hidden count links place place' (behind (Run.assign place name value σ))
      (behind (Run.assign place' name value σ')) := by
  let change (slot : Slot) : Slot := { slot with value }
  change Twins hidden count links place place'
    (σ.setFrame (σ.owner place name) ((σ.frame (σ.owner place name)).updateVariable name change))
    (σ'.setFrame (σ'.owner place' name)
      ((σ'.frame (σ'.owner place' name)).updateVariable name change))
  rcases h.owner_eq hname with ⟨hnone, hnone'⟩ | ⟨id, id', hmem, hid, hid'⟩
  · rw [hnone, hnone']
    change Twins hidden count links place place'
      { σ with world := { σ.world with top := σ.world.top.updateVariable name change } }
      { σ' with world := { σ'.world with top := σ'.world.top.updateVariable name change } }
    rw [h.world_eq]
    exact h.withWorld _
  · rw [hid, hid']
    apply h.setFrame hmem (((h.linked _ hmem).frameTwin h.old).updateVariable hname change)
    intro hlt
    cases h.linked _ hmem with
    | old _ => exact congrArg (Frame.updateVariable · name change) (h.old id hlt)
    | new hnew _ _ => exact absurd hlt (Nat.not_lt.mpr hnew)

/-! ### New scopes -/

/-- The top scopes belong together. -/
theorem alone (h : Twins hidden count links place place' σ σ') {hidden' : String → Prop} :
    Twins hidden' count [] none none σ σ' where
  world_eq := h.world_eq
  has := trivial
  has' := trivial
  le := h.le
  le' := h.le'
  old := h.old
  ids_eq := rfl
  ids_eq' := rfl
  linked := List.forall_mem_nil _

/-- New scopes in both states belong together. -/
theorem opened (h : Twins hidden count links place place' σ σ') :
    Twins hidden count ((some σ.next, σ'.next) :: links) (some σ.next) (some σ'.next)
      (σ.opened place) (σ'.opened place') where
  world_eq := h.world_eq
  has := State.has_opened_self
  has' := State.has_opened_self
  le := State.next_opened.symm ▸ h.le.trans (Nat.le_succ _)
  le' := State.next_opened.symm ▸ h.le'.trans (Nat.le_succ _)
  old id hid := by
    rw [State.scopeFrame_opened, State.scopeFrame_opened]
    exact h.old id hid
  ids_eq := (State.ids_opened_self h.has).trans (congrArg _ h.ids_eq)
  ids_eq' := (State.ids_opened_self h.has').trans (congrArg _ h.ids_eq')
  linked := by
    refine List.forall_mem_cons.mpr ⟨?_, fun link hmem => ?_⟩
    · refine .new h.le h.le' ?_
      rw [State.frame_opened_self, State.frame_opened_self]
      exact .refl _
    · exact (h.linked link hmem).congr (fun _ _ => State.scopeFrame_opened)
        State.scopeFrame_opened

/-- A new scope in the second state alone is one without a counterpart. -/
theorem openedExtra (h : Twins hidden count links place place' σ σ') :
    Twins hidden count ((none, σ'.next) :: links) place (some σ'.next) σ (σ'.opened place') where
  world_eq := h.world_eq
  has := h.has
  has' := State.has_opened_self
  le := h.le
  le' := State.next_opened.symm ▸ h.le'.trans (Nat.le_succ _)
  old id hid := State.scopeFrame_opened.trans (h.old id hid)
  ids_eq := h.ids_eq
  ids_eq' := (State.ids_opened_self h.has').trans (congrArg _ h.ids_eq')
  linked := by
    refine List.forall_mem_cons.mpr ⟨?_, fun link hmem => ?_⟩
    · refine .extra h.le' ?_
      rw [State.frame_opened_self]
      exact .refl _
    · exact (h.linked link hmem).congr (fun _ _ => rfl) State.scopeFrame_opened

/-- A new scope in the first state alone belongs to the innermost scope of the second, if this had
no counterpart. -/
theorem openedLate (h : Twins hidden count ((none, id') :: links) place (some id') σ σ') :
    Twins hidden count ((some σ.next, id') :: links) (some σ.next) (some id')
      (σ.opened place) σ' where
  world_eq := h.world_eq
  has := State.has_opened_self
  has' := h.has'
  le := State.next_opened.symm ▸ h.le.trans (Nat.le_succ _)
  le' := h.le'
  old id hid := (h.old id hid).trans State.scopeFrame_opened.symm
  ids_eq := (State.ids_opened_self h.has).trans (congrArg _ h.ids_eq)
  ids_eq' := h.ids_eq'
  linked := by
    obtain ⟨hfirst, hrest⟩ := List.forall_mem_cons.mp h.linked
    refine List.forall_mem_cons.mpr ⟨?_, fun link hmem => ?_⟩
    · cases hfirst with
      | extra hnew hframe =>
        refine .new h.le hnew ?_
        rw [State.frame_opened_self]
        exact hframe
    · exact (hrest link hmem).congr (fun _ _ => State.scopeFrame_opened) rfl

/-- The scopes around new ones still belong together when the new ones are left. -/
theorem leave (h : Twins hidden count links place place' σ σ') {inner inner' : Place}
    {names names' : List String} (hchanges : Changes place names σ τ)
    (hchanges' : Changes place' names' σ' τ')
    (hinner : Twins hidden count (link :: links) inner inner' τ τ') :
    Twins hidden count links place place' τ τ' where
  world_eq := hinner.world_eq
  has := hchanges.has h.has
  has' := hchanges'.has h.has'
  le := hinner.le
  le' := hinner.le'
  old := hinner.old
  ids_eq := (hchanges.ids_eq h.has).trans h.ids_eq
  ids_eq' := (hchanges'.ids_eq h.has').trans h.ids_eq'
  linked := fun link hmem => hinner.linked link (List.mem_cons_of_mem _ hmem)

/-- What changes the top frame, the lists and the output at most changes no local scope. -/
theorem back (h : Twins hidden count links place place' σ σ') (hchanges : Changes none [] σ τ)
    (hchanges' : Changes none [] σ' τ') (hworld : τ'.world = τ.world) :
    Twins hidden count links place place' τ τ' := by
  have hframe : ∀ id < σ.next, τ.scopes.frame id = σ.scopes.frame id :=
    fun id hid => hchanges.elsewhere (some id) hid (by simp [State.path])
  have hframe' : ∀ id < σ'.next, τ'.scopes.frame id = σ'.scopes.frame id :=
    fun id hid => hchanges'.elsewhere (some id) hid (by simp [State.path])
  exact {
    world_eq := hworld
    has := hchanges.has h.has
    has' := hchanges'.has h.has'
    le := h.le.trans hchanges.next_le
    le' := h.le'.trans hchanges'.next_le
    old := fun id hid => by
      rw [hframe id (hid.trans_le h.le), hframe' id (hid.trans_le h.le')]
      exact h.old id hid
    ids_eq := (hchanges.ids_eq h.has).trans h.ids_eq
    ids_eq' := (hchanges'.ids_eq h.has').trans h.ids_eq'
    linked := by
      rintro ⟨first, id'⟩ hmem
      refine (h.linked _ hmem).congr ?_ (hframe' _ (h.lt_next' hmem))
      rintro id rfl
      exact hframe id (h.lt_next hmem) }

end Twins

end Scoped

end BlockScript

import BlockScript.Proofs.Scope.Lookup
/-!
# Scopes are lexical environments

Scopes are made, filled and changed in any order, and whatever fails leaves everything as it was. A
history is the list of what was done. It says which scopes there are, what surrounds them, and what
stands in them: the first definition under a key counts, with the changes that were made through it
since. The store that comes of a history has just that. So every look-up finds the nearest entry,
and what a further action does to a look-up can be told from the scopes between the two.

Definitions may come after scopes around which they are made were used, and may hide what was found
before; nothing in the laws depends on the order of the history.

## Main definitions

* `Store.Action`, `Store.History` — what is done to a store
* `Store.behind` — the store that comes of a history
* `Store.History.chain`, `Store.History.entryAt?` — scopes and entries as the history tells them
* `Store.History.Valid` — histories that only speak of scopes that exist

## Main results

* `Store.History.reflected` — a store has what its history tells
* `scopes_are_lexical` — the laws of look-ups, definitions and changes
-/

namespace BlockScript

variable {V F : Type}

namespace Store

open BlockScript.Frame (Key Definition)

/-- What can be done to a store of scopes. -/
inductive Action (V F : Type) where
  /-- A new scope, inside of another one or outermost. -/
  | create (parent : Option Nat)
  | define (s : Nat) (d : Definition V F)
  /-- A change of the variable that a name means in a scope. -/
  | update (s : Nat) (name : String) (change : V → V)

/-- What was done to a store, the last action first. -/
abbrev History (V F : Type) : Type := List (Action V F)

/-- The store behind an action, or the error that it fails with. -/
def attempt (store : Store V F) : Action V F → Except ScopeError (Store V F)
  | .create parent => .ok (store.add parent {}).1
  | .define s d => store.define s d
  | .update s name change => store.updateVariable s name change

/-- The store behind an action that may have failed. -/
def perform (store : Store V F) (action : Action V F) : Store V F :=
  match store.attempt action with
  | .ok after => after
  | .error _ => store

section

variable {store : Store V F} {s p : Nat} {d : Definition V F} {name : String} {change : V → V}

theorem perform_define (hs : s < store.entries.size) (hnew : store.find? s d.key = none) :
    store.define s d = .ok (store.perform (.define s d)) ∧
      store.HasEntries (store.entriesWith s d) (store.perform (.define s d)) := by
  obtain ⟨after, hdefine, hafter⟩ := exists_define hs hnew
  rw [perform, attempt, hdefine]
  exact ⟨rfl, hafter⟩

theorem perform_define_again (hagain : store.find? s d.key ≠ none) :
    store.define s d = .error d.key.duplicate ∧ store.perform (.define s d) = store := by
  rw [perform, attempt, define_eq_error hagain]
  exact ⟨rfl, rfl⟩

theorem perform_update (hnearest : store.nearest? s (.var name) = some p) (change : V → V) :
    store.updateVariable s name change = .ok (store.perform (.update s name change)) ∧
      store.HasEntries (store.entriesChanged p name change)
        (store.perform (.update s name change)) := by
  obtain ⟨after, hupdate, hafter⟩ := exists_updateVariable hnearest change
  rw [perform, attempt, hupdate]
  exact ⟨rfl, hafter⟩

theorem perform_update_missing (hnearest : store.nearest? s (.var name) = none) :
    store.updateVariable s name change = .error (.undefinedVariable name) ∧
      store.perform (.update s name change) = store := by
  rw [perform, attempt, updateVariable_eq_error hnearest]
  exact ⟨rfl, rfl⟩

end

/-- The store behind a history. -/
def behind : History V F → Store V F
  | [] => {}
  | action :: earlier => (behind earlier).perform action

namespace History

/-- How many scopes were made. -/
def count : History V F → Nat
  | [] => 0
  | .create _ :: earlier => count earlier + 1
  | _ :: earlier => count earlier

/-- The scopes from a scope outwards, as they were made. -/
def chain : History V F → Nat → List Nat
  | [], s => [s]
  | .create parent :: earlier, s =>
    if s = count earlier then s :: parent.elim [] (chain earlier) else chain earlier s
  | _ :: earlier, s => chain earlier s

/-- The entry under a key in a scope: that of the first definition, with the changes that were made
where it was the nearest one. -/
def entryAt? : History V F → Nat → Key → Option (V ⊕ F)
  | [], _, _ => none
  | .create _ :: earlier, s, key => entryAt? earlier s key
  | .define p d :: earlier, s, key =>
    (entryAt? earlier s key).or (if s = p ∧ key = d.key then some d.entry else none)
  | .update p name change :: earlier, s, key =>
    if key = .var name ∧ (chain earlier p).find? (fun q => (entryAt? earlier q key).isSome) = some s
    then (entryAt? earlier s key).map (Sum.map change id)
    else entryAt? earlier s key

/-- Whether an action speaks of scopes among the first ones only. -/
def IsAmong (count : Nat) : Action V F → Prop
  | .create parent => ∀ p ∈ parent, p < count
  | .define s _ => s < count
  | .update s _ _ => s < count

/-- Whether all actions speak of scopes that were made before them. -/
def Valid : History V F → Prop
  | [] => True
  | action :: earlier => Valid earlier ∧ IsAmong (count earlier) action

/-- A store has the scopes and the entries that a history tells. -/
structure Reflects (history : History V F) (store : Store V F) : Prop where
  size_eq : store.entries.size = count history
  path_eq : ∀ s, store.path s = chain history s
  find?_eq : ∀ s key, store.find? s key = entryAt? history s key

variable {history : History V F} {store after : Store V F} {s p : Nat} {key : Key}
  {d : Definition V F} {name : String} {change : V → V}

theorem reflects_nil : Reflects ([] : History V F) {} where
  size_eq := rfl
  path_eq s := path_of_parent?_eq_none rfl
  find?_eq s key := by cases key <;> rfl

namespace Reflects

/-- A key is found where the history tells. -/
theorem nearest?_eq (h : Reflects history store) : store.nearest? s key =
    (chain history s).find? fun q => (entryAt? history q key).isSome := by
  rw [nearest?, h.path_eq]
  exact congrArg (List.find? · _) (funext fun q => by rw [h.find?_eq])

theorem create (h : Reflects history store) {parent : Option Nat}
    (hparent : ∀ p ∈ parent, p < count history) :
    Reflects (.create parent :: history) (store.add parent {}).1 where
  size_eq := by simp [Store.add, h.size_eq, count]
  path_eq s := by
    rw [chain, ← h.size_eq]
    rcases lt_trichotomy s store.entries.size with hs | rfl | hs
    · rw [path_add_of_lt hs, h.path_eq, if_neg hs.ne]
    · rw [if_pos rfl]
      cases parent with
      | none => exact path_add_self_of_none
      | some p => rw [path_add_self (h.size_eq ▸ hparent p rfl), h.path_eq, Option.elim_some]
    · have hnone : store.parent? s = none := by
        simp [parent?, Array.getElem?_eq_none hs.le]
      have hnone' : (store.add parent {}).1.parent? s = none := by
        simp [parent?, Store.add, Array.getElem?_push, hs.ne', Array.getElem?_eq_none hs.le]
      rw [path_of_parent?_eq_none hnone', ← path_of_parent?_eq_none hnone, h.path_eq,
        if_neg hs.ne']
  find?_eq s key := by
    rw [entryAt?, ← h.find?_eq, Store.find?, Store.find?]
    by_cases hs : s = store.entries.size
    · rw [hs, frame_add_self, frame_of_size_le le_rfl]
    · rw [frame_add_of_ne hs]

theorem define (h : Reflects history store)
    (hafter : store.HasEntries (store.entriesWith s d) after) :
    Reflects (.define s d :: history) after where
  size_eq := hafter.size_eq.trans h.size_eq
  path_eq t := (hafter.path_eq t).trans (h.path_eq t)
  find?_eq t key := by rw [hafter.find?_eq, entriesWith, entryAt?, h.find?_eq]

/-- The first definition counts. -/
theorem define_again (h : Reflects history store) (hagain : store.find? s d.key ≠ none) :
    Reflects (.define s d :: history) store where
  size_eq := h.size_eq
  path_eq := h.path_eq
  find?_eq t key := by
    rw [entryAt?, ← h.find?_eq]
    by_cases hsame : t = s ∧ key = d.key
    · obtain ⟨rfl, rfl⟩ := hsame
      obtain ⟨entry, hentry⟩ := Option.ne_none_iff_exists'.mp hagain
      rw [hentry, Option.some_or]
    · rw [if_neg hsame, Option.or_none]

theorem update (h : Reflects history store) (hnearest : store.nearest? s (.var name) = some p)
    (hafter : store.HasEntries (store.entriesChanged p name change) after) :
    Reflects (.update s name change :: history) after where
  size_eq := hafter.size_eq.trans h.size_eq
  path_eq t := (hafter.path_eq t).trans (h.path_eq t)
  find?_eq t key := by
    rw [hafter.find?_eq, entriesChanged, entryAt?, ← h.nearest?_eq, h.find?_eq]
    by_cases hkey : key = .var name
    · subst hkey
      simp [hnearest, eq_comm]
    · simp [hkey]

/-- There is nothing to change. -/
theorem update_missing (h : Reflects history store)
    (hnearest : store.nearest? s (.var name) = none) :
    Reflects (.update s name change :: history) store where
  size_eq := h.size_eq
  path_eq := h.path_eq
  find?_eq t key := by
    rw [entryAt?, ← h.nearest?_eq, ← h.find?_eq, if_neg]
    rintro ⟨rfl, hsome⟩
    rw [hnearest] at hsome
    cases hsome

end Reflects

/-- A store has what its history tells. -/
theorem reflected : ∀ {history : History V F}, Valid history → Reflects history (behind history)
  | [], _ => reflects_nil
  | .create _ :: _, ⟨hearlier, hparent⟩ => (reflected hearlier).create hparent
  | .define s d :: earlier, ⟨hearlier, hs⟩ => by
    have h := reflected hearlier
    rw [behind]
    by_cases hnew : (behind earlier).find? s d.key = none
    · exact h.define (perform_define (h.size_eq ▸ hs) hnew).2
    · rw [(perform_define_again hnew).2]
      exact h.define_again hnew
  | .update s name change :: earlier, ⟨hearlier, _⟩ => by
    have h := reflected hearlier
    rw [behind]
    cases hnearest : (behind earlier).nearest? s (.var name) with
    | none =>
      rw [(perform_update_missing hnearest).2]
      exact h.update_missing hnearest
    | some p => exact h.update hnearest (perform_update hnearest _).2

end History

end Store

open Store (Action History behind)
open Store.History (Valid chain count entryAt?)

/-- Whatever was done to a store, its scopes see what they were made in, and have the first entry
that was defined under each key, with the changes made through it. A look-up finds the entry of the
nearest scope that has one, and fails if there is none. A further definition is seen by the look-ups
of its key that reach its scope, and by no others; if it fails, nothing is changed. A change is seen
by the look-ups that find the variable in the same scope, and by no others. All of this holds of
functions, by name and number of parameters, as it does of variables, and the two do not meet. -/
theorem scopes_are_lexical {history : History V F} (hvalid : Valid history) :
    let store := behind history
    (∀ s, store.path s = chain history s) ∧
    (∀ s key, store.find? s key = entryAt? history s key) ∧
    (∀ t key,
      (∀ entry, store.lookup t key = .ok entry ↔
        ∃ s, store.Reaches key t s ∧ store.find? s key = some entry) ∧
      ∀ e, store.lookup t key = .error e ↔
        e = key.undefined ∧ ∀ s ∈ store.path t, store.find? s key = none) ∧
    (∀ s < count history, ∀ d,
      let after := behind (.define s d :: history)
      (store.find? s d.key = none → store.define s d = .ok after ∧ ∀ t,
        (store.Reaches d.key t s → after.lookup t d.key = .ok d.entry) ∧
        ∀ key, ¬(key = d.key ∧ store.Reaches key t s) →
          after.lookup t key = store.lookup t key) ∧
      (store.find? s d.key ≠ none →
        store.define s d = .error d.key.duplicate ∧ after = store)) ∧
    ∀ s < count history, ∀ name change,
      let after := behind (.update s name change :: history)
      let key := Frame.Key.var name
      (store.nearest? s key = none →
        store.updateVariable s name change = .error key.undefined ∧ after = store) ∧
      (store.nearest? s key ≠ none → store.updateVariable s name change = .ok after ∧ ∀ t,
        (store.nearest? t key = store.nearest? s key →
          after.lookup t key = (store.lookup t key).map (Sum.map change id)) ∧
        ∀ other, ¬(other = key ∧ store.nearest? t key = store.nearest? s key) →
          after.lookup t other = store.lookup t other) := by
  intro store
  have h : Store.History.Reflects history store := Store.History.reflected hvalid
  refine ⟨h.path_eq, h.find?_eq, fun t key => ⟨fun _ => Store.lookup_eq_ok_iff,
    fun _ => Store.lookup_eq_error_iff⟩, ?_, ?_⟩
  · intro s hs d after
    refine ⟨fun hnew => ?_, Store.perform_define_again⟩
    obtain ⟨hdefine, hafter⟩ := Store.perform_define (h.size_eq ▸ hs) hnew
    exact ⟨hdefine, fun t => ⟨Store.lookup_of_define_of_reaches hafter hnew,
      fun _ => Store.lookup_of_define_of_not hafter⟩⟩
  · intro s hs name change after key
    refine ⟨Store.perform_update_missing, fun hfound => ?_⟩
    obtain ⟨p, hp⟩ := Option.ne_none_iff_exists'.mp hfound
    obtain ⟨hupdate, hafter⟩ := Store.perform_update hp change
    rw [hp]
    refine ⟨hupdate, fun t => ⟨fun ht => ?_, fun other hother => ?_⟩⟩
    · exact (Store.lookup_of_updateVariable hafter).trans (if_pos ⟨rfl, ht⟩)
    · have hnot : ¬(other = .var name ∧ store.nearest? t other = some p) := by
        rintro ⟨rfl, hsame⟩
        exact hother ⟨rfl, hsame⟩
      exact (Store.lookup_of_updateVariable hafter).trans (if_neg hnot)

/-- Two scopes with a variable `x` each, of which the inner one is made after the outer one was
changed through the inner scope. -/
def sampleHistory : History Nat Nat :=
  [.update 1 "x" (· + 1), .define 1 (.var "x" 5), .update 1 "x" (· + 1), .define 0 (.var "x" 1),
    .create (some 0), .create none]

/-- The inner scope has its own variable, and what is defined around it is seen from there under
another key. -/
theorem scopes_are_lexical_shadowed :
    Valid sampleHistory ∧ (behind sampleHistory).lookup 1 (.var "x") = .ok (.inl 6) ∧
      (behind sampleHistory).lookup 0 (.var "x") = .ok (.inl 2) ∧ 0 < count sampleHistory ∧
      (behind (.define 0 (.func "x" 0 7) :: sampleHistory)).lookup 1 (.func "x" 0) =
        .ok (.inr 7) ∧
      (behind (.define 0 (.func "x" 0 7) :: sampleHistory)).lookup 1 (.var "x") =
        .ok (.inl 6) := by
  have hvalid : Valid sampleHistory := by
    simp [sampleHistory, Valid, Store.History.IsAmong, count]
  obtain ⟨hpath, hfind, hlookup, hdefine, -⟩ := scopes_are_lexical hvalid
  have hinner : (behind sampleHistory).lookup 1 (.var "x") = .ok (.inl 6) :=
    ((hlookup 1 (.var "x")).1 (.inl 6)).mpr ⟨1, ⟨[], [0], hpath 1, by simp⟩, hfind 1 (.var "x")⟩
  have houter : (behind sampleHistory).lookup 0 (.var "x") = .ok (.inl 2) :=
    ((hlookup 0 (.var "x")).1 (.inl 2)).mpr ⟨0, ⟨[], [], hpath 0, by simp⟩, hfind 0 (.var "x")⟩
  obtain ⟨-, hseen⟩ := (hdefine 0 (by decide) (.func "x" 0 7)).1 (hfind 0 (.func "x" 0))
  have hreaches : (behind sampleHistory).Reaches (.func "x" 0) 1 0 :=
    ⟨[1], [], hpath 1, List.forall_mem_singleton.mpr (hfind 1 (.func "x" 0))⟩
  exact ⟨hvalid, hinner, houter, by decide, (hseen 1).1 hreaches,
    ((hseen 1).2 (.var "x") (by simp [Frame.Definition.key])).trans hinner⟩

end BlockScript

import BlockScript.Proofs.Scope
import Mathlib.Data.List.Find
/-!
# Look-ups in a store of scopes

Variables are looked up by name and functions by name and number of parameters, by one rule: what
counts is the nearest scope that has an entry under the key, from the scope of the look-up outwards.
So one definition can only be noticed by look-ups of its key that nothing stands in the way of, and
one change of a variable by those that find this variable.

## Main definitions

* `Frame.Key`, `Frame.Definition` — what is looked up, and what is defined
* `Store.find?`, `Store.lookup`, `Store.define` — entries in a scope, look-ups and definitions
* `Store.Reaches` — scopes with nothing under a key in front of them
* `Store.nearest?` — the scope in which a key is found
* `Store.HasEntries` — the same scopes with other entries

## Main results

* `Store.lookup_eq_ok_iff`, `Store.lookup_eq_error_iff` — what a look-up finds
* `Store.lookup_of_define_of_reaches`, `Store.lookup_of_updateVariable` — look-ups behind a definition
  and a change
-/

namespace BlockScript

variable {V F : Type}

/-! ### One frame -/

namespace Frame

/-- What is looked up: a variable, or a function with a number of parameters. -/
inductive Key where
  | var (name : String)
  | func (name : String) (arity : Nat)
  deriving DecidableEq, Repr

namespace Key

/-- The error that nothing is found under a key. -/
def undefined : Key → ScopeError
  | var name => .undefinedVariable name
  | func name arity => .undefinedFunction name arity

/-- The error that there is an entry under a key already. -/
def duplicate : Key → ScopeError
  | var name => .duplicateVariable name
  | func name arity => .duplicateFunction name arity

end Key

/-- What is defined in a scope. -/
inductive Definition (V F : Type) where
  | var (name : String) (v : V)
  | func (name : String) (arity : Nat) (f : F)

namespace Definition

/-- The key under which a definition makes its entry. -/
def key : Definition V F → Key
  | var name _ => .var name
  | func name arity _ => .func name arity

/-- The entry that a definition makes. -/
def entry : Definition V F → V ⊕ F
  | var _ v => .inl v
  | func _ _ f => .inr f

end Definition

/-- The entry under a key. -/
def find? (frame : Frame V F) : Key → Option (V ⊕ F)
  | .var name => (frame.findVariable? name).map .inl
  | .func name arity => (frame.findFunction? name arity).map .inr

/-- The frame with one more entry, if its key is new. -/
def define (frame : Frame V F) : Definition V F → Except ScopeError (Frame V F)
  | .var name v => frame.defineVariable name v
  | .func name arity f => frame.defineFunction name arity f

variable {frame : Frame V F} {d : Definition V F} {key : Key}

theorem define_eq_error (h : frame.find? d.key ≠ none) :
    frame.define d = .error d.key.duplicate := by
  cases d with
  | var name v =>
    change (frame.findVariable? name).map _ ≠ none at h
    rw [define, defineVariable]
    cases hfind : frame.findVariable? name with
    | none => simp [hfind] at h
    | some own => rfl
  | func name arity f =>
    change (frame.findFunction? name arity).map _ ≠ none at h
    rw [define, defineFunction]
    cases hfind : frame.findFunction? name arity with
    | none => simp [hfind] at h
    | some own => rfl

theorem find?_append_vars {name : String} {v : V} :
    ({ frame with vars := frame.vars ++ [(name, v)] } : Frame V F).find? key =
      (frame.find? key).or (if key = .var name then some (.inl v) else none) := by
  cases key with
  | func other arity => simp [find?, findFunction?]
  | var other =>
    rw [find?, find?, findVariable?, findVariable?, List.lookup_append, List.lookup_cons]
    by_cases hname : other = name
    · cases frame.vars.lookup other <;> simp [hname]
    · simp [hname, beq_eq_false_iff_ne.mpr hname]

theorem find?_append_funs {name : String} {arity : Nat} {f : F} :
    ({ frame with funs := frame.funs ++ [((name, arity), f)] } : Frame V F).find? key =
      (frame.find? key).or (if key = .func name arity then some (.inr f) else none) := by
  cases key with
  | var other => simp [find?, findVariable?]
  | func other count =>
    rw [find?, find?, findFunction?, findFunction?, List.lookup_append, List.lookup_cons]
    by_cases hkey : (other, count) = (name, arity)
    · cases hkey
      cases frame.funs.lookup (name, arity) <;> simp
    · have hne : Key.func other count ≠ .func name arity := fun h => hkey (by cases h; rfl)
      simp [beq_eq_false_iff_ne.mpr hkey, hne]

/-- A definition under a new key makes its entry, and leaves the others alone. -/
theorem exists_define (h : frame.find? d.key = none) : ∃ after, frame.define d = .ok after ∧
    ∀ key, after.find? key = (frame.find? key).or (if key = d.key then some d.entry else none) := by
  cases d with
  | var name v =>
    have hnone : frame.findVariable? name = none := Option.map_eq_none_iff.mp h
    exact ⟨_, defineVariable_eq_ok_iff.mpr ⟨hnone, rfl⟩, fun _ => find?_append_vars⟩
  | func name arity f =>
    have hnone : frame.findFunction? name arity = none := Option.map_eq_none_iff.mp h
    exact ⟨_, defineFunction_eq_ok_iff.mpr ⟨hnone, rfl⟩, fun _ => find?_append_funs⟩

/-- A change concerns the variable of its name. -/
theorem find?_updateVariable {name : String} {change : V → V} :
    (frame.updateVariable name change).find? key =
      if key = .var name then (frame.find? key).map (Sum.map change id)
      else frame.find? key := by
  cases key with
  | func other arity => rfl
  | var other =>
    rw [find?, findVariable?_updateVariable, find?]
    by_cases hname : other = name
    · subst hname
      cases frame.findVariable? other <;> simp
    · simp [hname]

end Frame

namespace Store

open BlockScript.Frame (Key Definition)

/-- The entry under a key in a scope's own frame. -/
def find? (store : Store V F) (s : Nat) (key : Key) : Option (V ⊕ F) :=
  (store.frame s).find? key

/-- The entry that a key means in a scope. -/
def lookup (store : Store V F) (s : Nat) : Key → Except ScopeError (V ⊕ F)
  | .var name => (store.lookupVariable s name).map .inl
  | .func name arity => (store.lookupFunction s name arity).map .inr

/-- The store with one more entry in a scope's own frame. -/
def define (store : Store V F) (s : Nat) : Definition V F → Except ScopeError (Store V F)
  | .var name v => store.defineVariable s name v
  | .func name arity f => store.defineFunction s name arity f

/-- The scope `p` is seen from the scope `s`, and no scope in front of it has an entry under the
key. -/
def Reaches (store : Store V F) (key : Key) (s p : Nat) : Prop :=
  ∃ inner outer, store.path s = inner ++ p :: outer ∧ ∀ q ∈ inner, store.find? q key = none

/-- The scope in which a key is found, from a scope outwards. -/
def nearest? (store : Store V F) (s : Nat) (key : Key) : Option Nat :=
  (store.path s).find? fun p => (store.find? p key).isSome

/-- The scopes are those of `store`, and their entries are the given ones. -/
structure HasEntries (store : Store V F) (entries : Nat → Key → Option (V ⊕ F))
    (after : Store V F) : Prop where
  size_eq : after.entries.size = store.entries.size
  path_eq : ∀ t, after.path t = store.path t
  find?_eq : ∀ p key, after.find? p key = entries p key

/-- The entries of a store behind a definition in the scope `s`. -/
def entriesWith (store : Store V F) (s : Nat) (d : Definition V F) (p : Nat) (key : Key) :
    Option (V ⊕ F) :=
  (store.find? p key).or (if p = s ∧ key = d.key then some d.entry else none)

/-- The entries of a store behind a change of a variable of the scope `s`. -/
def entriesChanged (store : Store V F) (s : Nat) (name : String) (change : V → V) (p : Nat)
    (key : Key) : Option (V ⊕ F) :=
  if p = s ∧ key = .var name then (store.find? p key).map (Sum.map change id)
  else store.find? p key

variable {store after : Store V F} {s p t : Nat} {key : Key} {entry : V ⊕ F}

/-! ### What is found -/

/-- A look-up takes the first entry on the way outwards. -/
theorem lookup_eq : store.lookup s key =
    match (store.path s).findSome? fun p => store.find? p key with
    | some entry => .ok entry
    | none => .error key.undefined := by
  cases key with
  | var name =>
    have hchain : (store.path s).findSome? (fun p => store.find? p (.var name)) =
        (Chain.findVariable? (store.chain s) name).map .inl := by
      rw [Chain.findVariable?, chain, List.findSome?_map, List.map_findSome?]
      rfl
    rw [hchain, lookup, lookupVariable, Chain.lookupVariable]
    cases Chain.findVariable? (store.chain s) name <;> rfl
  | func name arity =>
    have hchain : (store.path s).findSome? (fun p => store.find? p (.func name arity)) =
        (Chain.findFunction? (store.chain s) name arity).map .inr := by
      rw [Chain.findFunction?, chain, List.findSome?_map, List.map_findSome?]
      rfl
    rw [hchain, lookup, lookupFunction, Chain.lookupFunction]
    cases Chain.findFunction? (store.chain s) name arity <;> rfl

theorem lookup_eq_ok_iff : store.lookup s key = .ok entry ↔
    ∃ p, store.Reaches key s p ∧ store.find? p key = some entry := by
  have hfirst : store.lookup s key = .ok entry ↔
      ((store.path s).findSome? fun p => store.find? p key) = some entry := by
    rw [lookup_eq]
    cases (store.path s).findSome? fun p => store.find? p key <;> simp
  rw [hfirst, List.findSome?_eq_some_iff]
  constructor
  · rintro ⟨inner, p, outer, hpath, hfind, hinner⟩
    exact ⟨p, ⟨inner, outer, hpath, hinner⟩, hfind⟩
  · rintro ⟨p, ⟨inner, outer, hpath, hinner⟩, hfind⟩
    exact ⟨inner, p, outer, hpath, hfind, hinner⟩

theorem lookup_eq_error_iff {e : ScopeError} : store.lookup s key = .error e ↔
    e = key.undefined ∧ ∀ p ∈ store.path s, store.find? p key = none := by
  rw [lookup_eq, ← List.findSome?_eq_none_iff]
  cases (store.path s).findSome? fun p => store.find? p key <;> simp [eq_comm]

/-- A look-up finds what stands in the nearest scope. -/
theorem lookup_of_nearest? (h : store.nearest? s key = some p) :
    ∃ entry, store.find? p key = some entry ∧ store.lookup s key = .ok entry := by
  obtain ⟨hsome, inner, outer, hpath, hinner⟩ := List.find?_eq_some_iff_append.mp h
  obtain ⟨entry, hentry⟩ := Option.isSome_iff_exists.mp hsome
  refine ⟨entry, hentry, lookup_eq_ok_iff.mpr ⟨p, ⟨inner, outer, hpath, ?_⟩, hentry⟩⟩
  intro q hq
  simpa using hinner q hq

theorem lookup_of_nearest?_eq_none (h : store.nearest? s key = none) :
    store.lookup s key = .error key.undefined := by
  refine lookup_eq_error_iff.mpr ⟨rfl, fun p hp => ?_⟩
  simpa using List.find?_eq_none.mp h p hp

/-! ### Definitions -/

section

variable {d : Definition V F}

theorem define_eq : store.define s d = ((store.frame s).define d).map (store.setFrame s) := by
  cases d <;> rfl

theorem define_eq_error (h : store.find? s d.key ≠ none) :
    store.define s d = .error d.key.duplicate := by
  rw [define_eq, Frame.define_eq_error h]
  rfl

/-- A definition under a new key makes its entry, and leaves everything else alone. -/
theorem exists_define (hs : s < store.entries.size) (h : store.find? s d.key = none) :
    ∃ after, store.define s d = .ok after ∧ store.HasEntries (store.entriesWith s d) after := by
  obtain ⟨frame, hframe, hfind⟩ := Frame.exists_define h
  refine ⟨store.setFrame s frame, by rw [define_eq, hframe]; rfl, size_setFrame,
    fun _ => path_setFrame, fun p key => ?_⟩
  by_cases hp : p = s
  · subst hp
    simp only [entriesWith, find?, frame_setFrame_self hs, hfind, true_and]
  · simp [entriesWith, find?, frame_setFrame_of_ne hp, hp]

/-- What stands between a scope and what it can reach can be reached as well. -/
theorem reaches_of_mem {inner outer : List Nat} (hpath : store.path s = inner ++ outer)
    (hinner : ∀ q ∈ inner, store.find? q key = none) (hp : p ∈ inner) :
    store.Reaches key s p := by
  obtain ⟨front, back, rfl⟩ := List.append_of_mem hp
  exact ⟨front, back ++ outer, by simp [hpath], fun q hq => hinner q (List.mem_append_left _ hq)⟩

/-- A new entry that can be reached is what is found. -/
theorem lookup_of_define_of_reaches (hafter : store.HasEntries (store.entriesWith s d) after)
    (hnew : store.find? s d.key = none) (h : store.Reaches d.key t s) :
    after.lookup t d.key = .ok d.entry := by
  obtain ⟨inner, outer, ht, hinner⟩ := h
  have hnodup : (inner ++ s :: outer).Nodup := ht ▸ nodup_path
  refine lookup_eq_ok_iff.mpr
    ⟨s, ⟨inner, outer, (hafter.path_eq t).trans ht, fun q hq => ?_⟩, ?_⟩
  · have hne : q ≠ s := by
      rintro rfl
      exact (List.nodup_append.mp hnodup).2.2 q hq q List.mem_cons_self rfl
    simp [hafter.find?_eq, entriesWith, hinner q hq, hne]
  · simp [hafter.find?_eq, entriesWith, hnew]

/-- Every other look-up finds what it found before. -/
theorem lookup_of_define_of_not (hafter : store.HasEntries (store.entriesWith s d) after)
    (h : ¬(key = d.key ∧ store.Reaches key t s)) : after.lookup t key = store.lookup t key := by
  -- in front of what was found, and wherever nothing was found, there is no new entry
  have hnone : ∀ inner outer, store.path t = inner ++ outer →
      (∀ q ∈ inner, store.find? q key = none) → ∀ q ∈ inner, after.find? q key = none := by
    intro inner outer ht hinner q hq
    rw [hafter.find?_eq, entriesWith, hinner q hq, Option.none_or, if_neg]
    rintro ⟨rfl, hkey⟩
    exact h ⟨hkey, reaches_of_mem ht hinner hq⟩
  cases hlookup : store.lookup t key with
  | ok entry =>
    obtain ⟨p, ⟨inner, outer, ht, hinner⟩, hp⟩ := lookup_eq_ok_iff.mp hlookup
    refine lookup_eq_ok_iff.mpr ⟨p, ⟨inner, outer, (hafter.path_eq t).trans ht, ?_⟩, ?_⟩
    · exact hnone inner _ ht hinner
    · rw [hafter.find?_eq, entriesWith, hp, Option.some_or]
  | error e =>
    obtain ⟨rfl, hall⟩ := lookup_eq_error_iff.mp hlookup
    refine lookup_eq_error_iff.mpr ⟨rfl, ?_⟩
    rw [hafter.path_eq]
    exact hnone _ [] (List.append_nil _).symm hall

end

/-! ### Changes of variables -/

section

variable {name : String} {change : V → V}

theorem owner?_eq_nearest? : store.owner? s name = store.nearest? s (.var name) := by
  simp [owner?, nearest?, find?, Frame.find?]

theorem updateVariable_eq_error (h : store.nearest? s (.var name) = none) :
    store.updateVariable s name change = .error (.undefinedVariable name) := by
  rw [updateVariable, owner?_eq_nearest?, h]

/-- A change concerns the variable that is found, and nothing else. -/
theorem exists_updateVariable (h : store.nearest? s (.var name) = some p) (change : V → V) :
    ∃ after, store.updateVariable s name change = .ok after ∧
      store.HasEntries (store.entriesChanged p name change) after := by
  obtain ⟨entry, hentry, -⟩ := lookup_of_nearest? h
  obtain ⟨v, hv, -⟩ := Option.map_eq_some_iff.mp hentry
  have hp : p < store.entries.size := lt_size_of_findVariable? hv
  refine ⟨_, by rw [updateVariable, owner?_eq_nearest?, h], size_setFrame, fun _ => path_setFrame,
    fun q key => ?_⟩
  by_cases hq : q = p
  · subst hq
    simp only [entriesChanged, find?, frame_setFrame_self hp, Frame.find?_updateVariable, true_and]
  · simp [entriesChanged, find?, frame_setFrame_of_ne hq, hq]

/-- Keys are found where they were found before. -/
theorem nearest?_of_updateVariable
    (hafter : store.HasEntries (store.entriesChanged p name change) after) :
    after.nearest? t key = store.nearest? t key := by
  rw [nearest?, nearest?, hafter.path_eq]
  refine List.find?_congr fun q _ => ?_
  rw [hafter.find?_eq, entriesChanged]
  split <;> simp

/-- The look-ups that find the changed variable find it changed, and all others find what they found
before. -/
theorem lookup_of_updateVariable
    (hafter : store.HasEntries (store.entriesChanged p name change) after) :
    after.lookup t key =
      if key = .var name ∧ store.nearest? t key = some p then
        (store.lookup t key).map (Sum.map change id)
      else store.lookup t key := by
  have hnearest : after.nearest? t key = store.nearest? t key :=
    nearest?_of_updateVariable hafter
  cases hstore : store.nearest? t key with
  | none =>
    rw [hstore] at hnearest
    rw [lookup_of_nearest?_eq_none hnearest, lookup_of_nearest?_eq_none hstore]
    simp
  | some q =>
    rw [hstore] at hnearest
    obtain ⟨entry, hentry, hlookup⟩ := lookup_of_nearest? hstore
    obtain ⟨entry', hentry', hlookup'⟩ := lookup_of_nearest? hnearest
    rw [hafter.find?_eq, entriesChanged, hentry] at hentry'
    rw [hlookup, hlookup']
    by_cases hchanged : key = .var name ∧ q = p
    · rw [if_pos hchanged.symm] at hentry'
      cases hentry'
      simp [hchanged, Except.map]
    · rw [if_neg fun h => hchanged h.symm] at hentry'
      cases hentry'
      simp [hchanged]

end

end Store

end BlockScript

import BlockScript.Proofs.Analysis.Declaration
import BlockScript.Proofs.Surface.Writes
import BlockScript.Proofs.Watched.Erasure
import BlockScript.Session
/-!
# The scopes of a session

In a session three scopes are there all the time: that of the built-in functions, and directly
inside it a top scope for the analysis and one for runs. Here they stand in one store, with the
built-in functions in a single scope that both top scopes see. Declarations are writes from the one
top scope, and what runs do are writes from the other one; a write goes to the scope itself or to
the one where a name is found, which could be the shared scope. It never is, because the shared
scope has no variables.

## Main definitions

* `Store.Write`, `Store.Writes` — writes from scopes
* `Session.scopes` — the three scopes of a session
* `Session.SeesScopes` — the two sides find names in the three scopes

## Main results

* `Store.Writes.frame_eq` — writes from other scopes leave a scope without variables as it is
* `Session.seesScopes_of_outer_eq` — names mean in the top scopes what they mean to the two sides
* `Session.writes_of_declares`, `Session.writes_of_writes` — what the two sides write
-/

namespace BlockScript

/-- Where a name is not found, nothing is changed. -/
theorem Frame.updateVariable_of_eq_none {V F : Type} {frame : Frame V F} {name : String}
    {change : V → V} (h : frame.findVariable? name = none) :
    frame.updateVariable name change = frame := by
  have hother : ∀ entry ∈ frame.vars, entry.1 ≠ name := by
    intro entry hentry heq
    exact absurd (List.lookup_eq_none_iff.mp h entry hentry) (by simp [heq])
  have hvars : (frame.vars.map fun entry =>
      if entry.1 = name then (entry.1, change entry.2) else entry) = frame.vars :=
    (List.map_congr_left fun entry hentry => if_neg (hother entry hentry)).trans (List.map_id' _)
  rw [updateVariable, hvars]

namespace Store

variable {V F : Type}

/-- One write from a scope: a definition in the scope, or a change of the variable that a name means
in it. -/
inductive Write (id : Nat) (store : Store V F) : Store V F → Prop
  /-- A variable is defined. -/
  | defineVariable {name : String} {v : V} {after : Store V F}
    (h : store.defineVariable id name v = .ok after) : Write id store after
  /-- A function is defined. -/
  | defineFunction {name : String} {arity : Nat} {f : F} {after : Store V F}
    (h : store.defineFunction id name arity f = .ok after) : Write id store after
  /-- A variable that is found from the scope is changed. -/
  | updateVariable {name : String} {change : V → V} {after : Store V F}
    (h : store.updateVariable id name change = .ok after) : Write id store after

/-- Writes from some of the scopes one after the other. -/
def Writes (ids : Nat → Prop) : Store V F → Store V F → Prop :=
  Relation.ReflTransGen fun store after => ∃ id, ids id ∧ store.Write id after

variable {store after : Store V F} {id p : Nat}

/-- A write from another scope leaves a scope without variables as it is. -/
theorem Write.frame_eq (h : Write id store after) (hne : p ≠ id)
    (hvars : (store.frame p).vars = []) : after.frame p = store.frame p := by
  -- a definition changes the frame of its own scope
  have hdefined : ∀ {frame : Except ScopeError (Frame V F)},
      frame.map (store.setFrame id) = .ok after → after.frame p = store.frame p := by
    intro frame hframe
    cases frame with
    | error e => cases hframe
    | ok frame =>
      cases hframe
      exact frame_setFrame_of_ne hne
  cases h with
  | defineVariable h => exact hdefined h
  | defineFunction h => exact hdefined h
  | @updateVariable name change _ h =>
    rw [Store.updateVariable] at h
    cases howner : store.owner? id name with
    | none =>
      rw [howner] at h
      cases h
    | some q =>
      rw [howner] at h
      cases h
      -- the owner of the name has a variable, so it is not the scope without variables
      have hq : ((store.frame q).findVariable? name).isSome = true := by
        simpa using List.find?_some howner
      apply frame_setFrame_of_ne
      rintro rfl
      rw [Frame.findVariable?, hvars] at hq
      cases hq

namespace Writes

variable {ids ids' : Nat → Prop} {middle : Store V F}

theorem refl (store : Store V F) : store.Writes ids store :=
  Relation.ReflTransGen.refl

theorem single (hid : ids id) (h : store.Write id after) : store.Writes ids after :=
  Relation.ReflTransGen.single ⟨id, hid, h⟩

/-- What is defined in the frame of a scope is written from the scope. -/
theorem of_defineVariable {name : String} {v : V} {frame : Frame V F}
    (h : (store.frame id).defineVariable name v = .ok frame) :
    store.Writes (· = id) (store.setFrame id frame) :=
  .single rfl (.defineVariable (congrArg (Except.map (store.setFrame id)) h))

theorem of_defineFunction {name : String} {arity : Nat} {f : F} {frame : Frame V F}
    (h : (store.frame id).defineFunction name arity f = .ok frame) :
    store.Writes (· = id) (store.setFrame id frame) :=
  .single rfl (.defineFunction (congrArg (Except.map (store.setFrame id)) h))

theorem trans (h : store.Writes ids middle) (h' : middle.Writes ids after) :
    store.Writes ids after :=
  Relation.ReflTransGen.trans h h'

theorem mono (h : store.Writes ids after) (hids : ∀ id, ids id → ids' id) :
    store.Writes ids' after := by
  induction h with
  | refl => exact .refl _
  | tail _ hwrite ih =>
    obtain ⟨id, hid, hwrite⟩ := hwrite
    exact ih.trans (.single (hids id hid) hwrite)

/-- Writes from other scopes leave a scope without variables as it is. -/
theorem frame_eq (h : store.Writes ids after) (hp : ¬ids p) (hvars : (store.frame p).vars = []) :
    after.frame p = store.frame p := by
  induction h with
  | refl => rfl
  | tail _ hwrite ih =>
    obtain ⟨id, hid, hwrite⟩ := hwrite
    have hne : p ≠ id := by
      rintro rfl
      exact hp hid
    exact (hwrite.frame_eq hne (ih ▸ hvars)).trans ih

end Writes

end Store

namespace Session

/-- What the shared scope holds for either side. -/
def builtins : Frame (Binding ⊕ Slot) (Option Signature × Option Routine) :=
  builtinFrame (some .print, some .print)

/-- The scopes of a session: 0 is the shared scope, 1 the top scope of the analysis, and 2 the top
scope of runs. -/
def scopes (session : Session) : Store (Binding ⊕ Slot) (Option Signature × Option Routine) where
  entries := #[
    { parent := none, frame := builtins },
    { parent := some 0, frame := session.tables.inner.map .inl fun f => (some f, none) },
    { parent := some 0, frame := session.world.top.map .inr fun routine => (none, some routine) }]

variable {session : Session}

/-- A top scope sees itself and the shared scope. -/
theorem path_scopes {id : Nat} (hid : id ∈ [1, 2]) : session.scopes.path id = [id, 0] := by
  rcases List.mem_pair.mp hid with rfl | rfl
  · have hparent : session.scopes.parent? 1 = some ⟨0, by decide⟩ := rfl
    rw [Store.path_of_parent? hparent, Store.path_of_parent?_eq_none rfl]
  · have hparent : session.scopes.parent? 2 = some ⟨0, by decide⟩ := rfl
    rw [Store.path_of_parent? hparent, Store.path_of_parent?_eq_none rfl]

theorem chain_scopes_one : session.scopes.chain 1 =
    [session.tables.inner.map .inl fun f => (some f, none), builtins] :=
  congrArg (List.map session.scopes.frame) (path_scopes (by decide))

theorem chain_scopes_two : session.scopes.chain 2 =
    [session.world.top.map .inr fun routine => (none, some routine), builtins] :=
  congrArg (List.map session.scopes.frame) (path_scopes (by decide))

/-! ### What names mean -/

/-- Names mean in the top scopes what they mean to the two sides. -/
structure SeesScopes (session : Session) : Prop where
  staticVariable (name : String) : (session.scopes.chain 1).findVariable? name =
    (Chain.findVariable? session.tables.chain name).map .inl
  staticFunction (name : String) (arity : Nat) :
    ((session.scopes.chain 1).findFunction? name arity).bind Prod.fst =
      Chain.findFunction? session.tables.chain name arity
  dynamicVariable (name : String) : (session.scopes.chain 2).findVariable? name =
    (Chain.findVariable? session.world.outerChain name).map .inr
  dynamicFunction (name : String) (arity : Nat) :
    ((session.scopes.chain 2).findFunction? name arity).bind Prod.snd =
      Chain.findFunction? session.world.outerChain name arity

/-- The built-in functions are found in the shared scope by either side. -/
theorem findFunction?_builtins (name : String) (arity : Nat) :
    (builtins.findFunction? name arity).bind Prod.fst =
        Tables.builtins.findFunction? name arity ∧
      (builtins.findFunction? name arity).bind Prod.snd =
        World.builtins.findFunction? name arity := by
  simp only [builtins, Tables.builtins, World.builtins, builtinFrame, Frame.findFunction?,
    List.lookup_cons]
  split <;> exact ⟨rfl, rfl⟩

/-- The sides see the scopes while the built-in functions are around the tables. -/
theorem seesScopes_of_outer_eq (houter : session.tables.outer = [Tables.builtins]) :
    session.SeesScopes := by
  have hchain : session.tables.chain = [session.tables.inner, Tables.builtins] := by
    rw [Tables.chain, houter]
  constructor
  case staticVariable =>
    intro name
    rw [chain_scopes_one, hchain]
    simp only [Chain.findVariable?_cons, Frame.findVariable?_map]
    cases session.tables.inner.findVariable? name <;> rfl
  case staticFunction =>
    intro name arity
    rw [chain_scopes_one, hchain]
    simp only [Chain.findFunction?_cons, Frame.findFunction?_map]
    cases session.tables.inner.findFunction? name arity with
    | none => simpa [Chain.findFunction?] using (findFunction?_builtins name arity).1
    | some f => rfl
  case dynamicVariable =>
    intro name
    rw [chain_scopes_two, World.outerChain]
    simp only [Chain.findVariable?_cons, Frame.findVariable?_map]
    cases session.world.top.findVariable? name <;> rfl
  case dynamicFunction =>
    intro name arity
    rw [chain_scopes_two, World.outerChain]
    simp only [Chain.findFunction?_cons, Frame.findFunction?_map]
    cases session.world.top.findFunction? name arity with
    | none => simpa [Chain.findFunction?] using (findFunction?_builtins name arity).2
    | some routine => rfl

/-! ### What is written -/

section

variable {tables : Tables} {world : World}

/-- A declaration is a write from the top scope of the analysis, or none. -/
theorem writes_of_declaration (h : session.tables.Declaration tables) :
    session.scopes.Writes (· = 1) (scopes { session with tables }) := by
  cases h with
  | define _ hdefine =>
    exact .of_defineVariable (Frame.defineVariable_map.trans (congrArg (Except.map _) hdefine))
  | function hdefine =>
    exact .of_defineFunction (Frame.defineFunction_map.trans (congrArg (Except.map _) hdefine))
  | number fresh => exact .refl _

/-- What is declared is written from the top scope of the analysis. -/
theorem writes_of_declares (h : session.tables.Declares tables) :
    session.scopes.Writes (· = 1) (scopes { session with tables }) := by
  induction h with
  | refl => exact .refl _
  | @tail between _ _ hdeclaration ih =>
    exact ih.trans (@writes_of_declaration { session with tables := between } _ hdeclaration)

/-- A variable of the top scope of runs is found there, and another one is not found at all. -/
theorem owner?_scopes_two (name : String) : session.scopes.owner? 2 name =
    if (session.world.top.findVariable? name).isSome then some 2 else none := by
  have htop : ((session.scopes.frame 2).findVariable? name).isSome =
      (session.world.top.findVariable? name).isSome := by
    have hframe : (session.scopes.frame 2).findVariable? name = _ := Frame.findVariable?_map
    rw [hframe, Option.isSome_map]
  rw [Store.owner?, path_scopes (by decide), List.find?_cons, htop]
  cases (session.world.top.findVariable? name).isSome <;> rfl

/-- What a run writes is written from the top scope of runs. -/
theorem writes_of_write (h : session.world.Write world) :
    session.scopes.Writes (· = 2) (scopes { session with world }) := by
  cases h with
  | heap | event => exact .refl _
  | define hdefine =>
    exact .of_defineVariable (Frame.defineVariable_map.trans (congrArg (Except.map _) hdefine))
  | function hdefine =>
    exact .of_defineFunction (Frame.defineFunction_map.trans (congrArg (Except.map _) hdefine))
  | assign name value =>
    let change : Binding ⊕ Slot → Binding ⊕ Slot := Sum.map id fun slot => { slot with value }
    have hframe : (session.scopes.frame 2).updateVariable name change = _ :=
      Frame.updateVariable_map fun _ => rfl
    cases hfound : session.world.top.findVariable? name with
    | some slot =>
      have hupdate : session.scopes.updateVariable 2 name change = .ok
          (session.scopes.setFrame 2 ((session.scopes.frame 2).updateVariable name change)) := by
        rw [Store.updateVariable, owner?_scopes_two, hfound]
        rfl
      rw [hframe] at hupdate
      exact .single rfl (.updateVariable hupdate)
    | none =>
      -- nothing has the name, and nothing is changed
      rw [Frame.updateVariable_of_eq_none hfound]
      exact .refl _

/-- What runs write is written from the top scope of runs. -/
theorem writes_of_writes (h : session.world.Writes world) :
    session.scopes.Writes (· = 2) (scopes { session with world }) := by
  induction h with
  | refl => exact .refl _
  | @tail between _ _ hwrite ih =>
    exact ih.trans (@writes_of_write { session with world := between } _ hwrite)

end

end Session

end BlockScript

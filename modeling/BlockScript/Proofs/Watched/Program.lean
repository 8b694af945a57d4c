import BlockScript.Proofs.Analysis.Program
import BlockScript.Proofs.Watched.Preservation
/-!
# Runs of well-typed programs

The global variables are evaluated one after another, and with each of them the static table of the
top level grows; lists are made here only. Then the functions are defined, and from then on nothing
of what expressions and statements rely on changes.

## Main definitions

* `Watched.AtTop` — the invariant while the global variables are evaluated

## Main results

* `Watched.sound_runProgram` — whatever happens in the run of a well-typed program is wanted
-/

namespace BlockScript

namespace Watched

open BlockScript.Watched.Run

variable {functions : List Node} {tables after : Tables}

/-- The tables stand at the top level, before any function was declared. -/
structure Outermost (tables : Tables) : Prop where
  outer : tables.outer = [Tables.builtins]
  funs : tables.inner.funs = []
  numbered : tables.WellNumbered

theorem Outermost.grows (h : Outermost tables) (hgrows : tables.Grows after) :
    Outermost after := by
  refine ⟨hgrows.outer_eq.trans h.outer, ?_, hgrows.wellNumbered h.numbered⟩
  have hfuns := h.funs
  clear h
  induction hgrows with
  | refl => exact hfuns
  | skip _ _ ih => exact ih hfuns
  | declare _ hdeclare _ ih =>
    obtain ⟨-, -, rfl⟩ := Tables.declare_eq_ok_iff.mp hdeclare
    exact ih hfuns

theorem agrees_outermost {context : Context} (houter : tables.outer = [Tables.builtins])
    (hnumbered : tables.WellNumbered) (hglobals : context.globals = tables.inner) :
    Place.outermost.Agrees context 1 tables := by
  refine ⟨⟨[], ?_, .nil⟩, hnumbered, ?_, ?_, ?_⟩
  · rw [Tables.chain, houter, hglobals]
    rfl
  · exact List.nodup_singleton 0
  · simp [Place.outermost]
  · simp [Place.outermost, slotsOf]

/-! ### Global variables -/

/-- The state of a run agrees with the table of the top level, and lists have items of certain
types. -/
def AtTop (functions : List Node) (tables : Tables) (elements : List Ty) (world : World) : Prop :=
  World.Agrees { globals := tables.inner, functions, elements } world ∧ 1 ≤ world.next

theorem safe_values {context : Context} {bound : Nat} {place : Place} {ty : Ty}
    {values : List Node} (hplace : place.Agrees context bound tables) :
    ∀ fuel, TypedValues tables.chain ty values →
      Safe context bound (evaluateAll fuel place values) fun items =>
        ∀ item ∈ items, item.Fits ty := by
  induction values with
  | nil =>
    intro fuel _
    cases fuel with
    | zero => exact safe_outOfFuel
    | succ fuel => exact safe_pure (by simp)
  | cons value rest ih =>
    intro fuel htyped
    cases fuel with
    | zero => exact safe_outOfFuel
    | succ fuel =>
      obtain ⟨own, hvalue, haccepts⟩ := htyped value List.mem_cons_self
      apply (safe_evaluate fuel hvalue hplace).bind
      intro first hfirst
      apply (ih fuel fun value hmem => htyped value (List.mem_cons_of_mem _ hmem)).bind
      intro others hothers
      exact safe_pure (List.forall_mem_cons.mpr ⟨hfirst.mono haccepts, hothers⟩)

theorem Outermost.funs_eq_nil (h : Outermost tables) {elements : List Ty} {world : World}
    (hworld : World.Agrees { globals := tables.inner, functions, elements } world) :
    world.top.funs = [] := by
  have hagree := hworld.funs
  rw [h.funs] at hagree
  exact List.forall₂_nil_left_iff.mp hagree

/-- The definition of a global variable for a binding that was declared. -/
theorem triple_declare {name : String} {ty : Ty} {mutable isList : Bool} {binding : Binding}
    {value : Value} {elements : List Ty} (houtermost : Outermost tables) (hname : name ≠ returnName)
    (hdeclare : tables.declare name (some ty) mutable isList = .ok (binding, after))
    (hholds : Holds elements binding value) :
    Triple (Stops functions) (AtTop functions tables elements)
      (declare .outermost name ⟨value, mutable, some binding, 0⟩)
      fun _ => AtTop functions after elements := by
  rintro world ⟨hworld, hnext⟩
  have houtermost' := houtermost.grows (.declare hname hdeclare .refl)
  obtain ⟨hnew, hbinding, hafter⟩ := Tables.declare_eq_ok_iff.mp hdeclare
  have hslot : Slot.Agrees elements 0 binding ⟨value, mutable, some binding, 0⟩ :=
    ⟨rfl, by rw [hbinding], rfl, hholds⟩
  obtain ⟨grown, hdefine, hfuns, hvars⟩ := hworld.vars.define hname hnew hslot
  have hnone := houtermost.funs_eq_nil hworld
  -- the table of the top level has the binding, and the top frame the variable
  have hgrown : World.Agrees { globals := after.inner, functions, elements }
      { world with top := grown } := by
    refine ⟨?_, ?_, hworld.heap, hworld.typed, hworld.bound⟩
    · rw [hafter]
      exact hvars
    · rw [houtermost'.funs, hfuns, hnone]
      exact .nil
  have hplace : Place.outermost.Agrees { globals := after.inner, functions, elements } 1 after :=
    agrees_outermost houtermost'.outer houtermost'.numbered rfl
  have hresult : declare .outermost name ⟨value, mutable, some binding, 0⟩ world =
      .ok [] (({ world with top := grown } : World).see .outermost .changed) := by
    have hdefined : define [] name ⟨value, mutable, some binding, 0⟩ world =
        .ok [] { world with top := grown } := by
      rw [define, get_bind_apply, hdefine]
      rfl
    rw [declare, bind_apply]
    simp only [Place.outermost, hdefined]
    rfl
  rw [hresult]
  exact ⟨hgrown.see hplace trivial, hnext⟩

theorem AtTop.withTranscript {elements : List Ty} {world : World} {transcript : Transcript}
    (h : AtTop functions tables elements world) :
    AtTop functions tables elements { world with transcript } :=
  ⟨⟨h.1.vars, h.1.funs, h.1.heap, h.1.typed, h.1.bound⟩, h.2⟩

/-- A list literal makes a new list. -/
theorem triple_listLiteral {fuel : Nat} {ty : Ty} {values : List Node} {elements : List Ty}
    (houtermost : Outermost tables) (hvalues : TypedValues tables.chain ty values) :
    Triple (Stops functions) (AtTop functions tables elements)
      (evaluate fuel .outermost (.listLiteral values (some ty)))
      fun value world => AtTop functions tables (elements ++ [ty]) world ∧
        value = .list elements.length := by
  cases fuel with
  | zero => exact fun _ hworld => ⟨.inl rfl, hworld.1.typed, hworld.1.bound⟩
  | succ fuel =>
    -- at the outermost place nothing depends on the types of the lists
    have hplace : ∀ elements, Place.outermost.Agrees
        { globals := tables.inner, functions, elements } 1 tables :=
      fun _ => agrees_outermost houtermost.outer houtermost.numbered rfl
    have hallocate : ∀ items : List Value, Triple (Stops functions)
        (fun world => AtTop functions tables elements world ∧ ∀ item ∈ items, item.Fits ty)
        (perform .outermost (.listLiteral values (some ty)) (BlockScript.Run.allocate items))
        fun value world => AtTop functions tables (elements ++ [ty]) world ∧
          value = .list elements.length := by
      rintro items world ⟨⟨hworld, hnext⟩, hitems⟩
      -- the handle of the new list is the number of lists before
      refine ⟨⟨⟨hworld.vars.mono, ?_, hworld.heap.push hitems, hworld.typed, hworld.bound⟩, hnext⟩,
        congrArg Value.list hworld.heap.size_eq⟩
      rw [houtermost.funs, World.keep, houtermost.funs_eq_nil hworld]
      exact .nil
    have hitems : Triple (Stops functions) (AtTop functions tables elements)
        (evaluateAll fuel .outermost values)
        fun items world => AtTop functions tables elements world ∧ ∀ item ∈ items, item.Fits ty :=
      safe_values (hplace elements) fuel hvalues
    apply (hitems.bind hallocate).bind
    rintro value world ⟨⟨hworld, hnext⟩, hvalue⟩
    exact ⟨⟨hworld.see (hplace _) (.inl rfl), hnext⟩, hvalue⟩

theorem triple_executeGlobal {fuel : Nat} {node : Node} {elements : List Ty}
    (houtermost : Outermost tables) (htyped : TypedGlobal tables node after) :
    Triple (Stops functions) (AtTop functions tables elements) (executeGlobal fuel node)
      fun _ world => ∃ elements, AtTop functions after elements world := by
  -- once the value is there, lists and other values go the same way
  have hrest : ∀ {name ty mutable isList binding value elements}, name ≠ returnName →
      tables.declare name (some ty) mutable isList = .ok (binding, after) →
      Holds elements binding value →
      Triple (Stops functions) (AtTop functions tables elements)
        (do
          let _ ← declare .outermost name ⟨value, mutable, some binding, 0⟩
          note 2 fun world => "global " ++ name ++ " = " ++ world.textOf value)
        fun _ world => ∃ elements, AtTop functions after elements world := by
    intro name ty mutable isList binding value elements hname hdeclare hholds
    apply (triple_declare houtermost hname hdeclare hholds).bind
    intro _ world hworld
    exact ⟨elements, hworld.withTranscript⟩
  cases htyped with
  | @list _ name typeName values ty binding hname hvalues hdeclare =>
    apply (triple_listLiteral houtermost hvalues).bind
    rintro value world ⟨hworld, rfl⟩
    refine hrest hname hdeclare ?_ world hworld
    obtain ⟨-, rfl, -⟩ := Tables.declare_eq_ok_iff.mp hdeclare
    exact .list rfl rfl List.getElem?_concat_length
  | @value _ name mutable typeName value ty binding hname hinitial hdeclare =>
    have hvalue : ∀ initial : Value, initial.Fits ty → Holds elements binding initial := by
      intro initial hfits
      obtain ⟨-, rfl, -⟩ := Tables.declare_eq_ok_iff.mp hdeclare
      exact .value rfl rfl hfits
    cases hinitial with
    | absent => exact hrest hname hdeclare (hvalue _ .nil)
    | @present _ own h haccepts =>
      have hevaluate : Triple (Stops functions) (AtTop functions tables elements)
          (evaluate fuel .outermost value)
          fun initial world => AtTop functions tables elements world ∧ initial.Fits own :=
        safe_evaluate fuel h (agrees_outermost houtermost.outer houtermost.numbered rfl)
      -- an initial value is evaluated, since it is not missing
      have hnotNull : (if value.isNull = true then pure .nil >>= fun initial => do
            let _ ← declare .outermost name ⟨initial, mutable, some binding, 0⟩
            note 2 fun world => "global " ++ name ++ " = " ++ world.textOf initial
          else evaluate fuel .outermost value >>= fun initial => do
            let _ ← declare .outermost name ⟨initial, mutable, some binding, 0⟩
            note 2 fun world => "global " ++ name ++ " = " ++ world.textOf initial) =
          executeGlobal fuel (.global name mutable typeName value false (some binding)) := rfl
      rw [← hnotNull, if_neg (by simp [h.isNull_eq])]
      apply hevaluate.bind
      rintro initial world ⟨hworld, hfits⟩
      exact hrest hname hdeclare (hvalue initial (hfits.mono haccepts)) world hworld

theorem triple_globals {fuel : Nat} {nodes : List Node} (houtermost : Outermost tables)
    (htyped : TypedGlobals tables nodes after) :
    Triple (Stops functions) (fun world => ∃ elements, AtTop functions tables elements world)
      (nodes.forM (executeGlobal fuel))
      fun _ world => ∃ elements, AtTop functions after elements world := by
  induction htyped with
  | nil => exact fun _ hworld => hworld
  | cons h _ ih =>
    refine Triple.bind (fun world hworld => ?_) fun _ => ih (houtermost.grows h.grows)
    obtain ⟨elements, hworld⟩ := hworld
    exact triple_executeGlobal houtermost h world hworld

/-! ### Functions -/

/-- Functions that are defined have the signatures that were declared. -/
theorem triple_defineFunctions {context : Context} {nodes : List Node}
    (hdeclared : DeclaredFunctions tables nodes after) :
    ∀ {outer behind : Tables} {bindings : List (List Binding)},
      TypedFunctions outer nodes bindings behind →
      outer.chain = [context.globals, Tables.builtins] → outer.WellNumbered →
      (∀ node ∈ nodes, node ∈ context.functions) →
      Triple (Stops context.functions)
        (fun world => world.AgreesUpTo context tables.inner.funs ∧ 1 ≤ world.next)
        (defineFunctions nodes bindings)
        fun _ world => world.AgreesUpTo context after.inner.funs ∧ 1 ≤ world.next := by
  induction hdeclared with
  | nil => exact fun _ _ _ _ _ hworld => hworld
  | @cons tables between after name parameters types resultType body f rest hname hjava harity
      hdeclare hdeclared ih =>
    intro outer behind bindings htyped hchain hnumbered hmem
    cases htyped with
    | @cons _ behind _ _ _ _ _ _ _ own _ others _ hbody hfunctions =>
      -- one more function is defined, whose body was typed in the tables of all signatures
      apply Triple.bind (Q := fun _ world =>
        world.AgreesUpTo context between.inner.funs ∧ 1 ≤ world.next)
      · rintro world ⟨hworld, hnext⟩
        obtain ⟨hnew, hbetween⟩ := Tables.declareFunction_eq_ok_iff.mp hdeclare
        obtain rfl := hname
        have hroutine : Routine.Agrees context f (.defined f.name parameters body (some f) own) :=
          .defined hchain hnumbered hbody (hmem _ List.mem_cons_self)
        obtain ⟨top, hdefine, hvars, hfuns⟩ := hworld.funs.define hnew hroutine
        have hresult : ∃ transcript, defineFunction
            (.function f.name parameters types resultType body (some f)) own world =
              .ok () { world with top, transcript } := by
          rw [Signature.arity, harity] at hdefine
          rw [defineFunction, get_bind_apply, hdefine]
          exact ⟨_, rfl⟩
        obtain ⟨transcript, hresult⟩ := hresult
        rw [List.headD_cons, hresult]
        refine ⟨⟨?_, ?_, hworld.heap, hworld.typed, hworld.bound⟩, hnext⟩
        · rw [hvars]
          exact hworld.vars
        · rw [hbetween]
          exact hfuns
      · intro _
        exact ih hfunctions hchain (hnumbered.skip hbody.fresh_le)
          fun node hnode => hmem node (List.mem_cons_of_mem _ hnode)

/-! ### Programs -/

/-- How the run of an accepted program fails: in a way that was foreseen, or because it has no
`main`. -/
structure Fails (functions : List Node) (failure : Failure) (world : World) : Prop where
  typed : ∀ point ∈ world.points, point.Typed
  bound : ∀ point ∈ world.points, point.Bound functions
  cause : Foreseen failure world ∨ failure = .error (.scope (.undefinedFunction "main" 0)) ∧
    ∀ types resultType body signature,
      .function "main" [] types resultType body signature ∉ functions

theorem Stops.fails {functions : List Node} {failure : Failure} {world : World}
    (h : Stops functions failure world) : Fails functions failure world :=
  ⟨h.typed, h.bound, .inl h.foreseen⟩

/-- An error comes from a value that was refused with an excuse, unless there is no `main`. -/
theorem Fails.excuse {functions : List Node} {e : EvaluationError} {world : World}
    (h : Fails functions (.error e) world) :
    (∃ node, world.points.head?.map Point.event = some (.refused node (.error e)) ∧
      Excuse node e) ∨
    e = .scope (.undefinedFunction "main" 0) ∧ ∀ types resultType body signature,
      .function "main" [] types resultType body signature ∉ functions := by
  rcases h.cause with (hfuel | hgreat | ⟨e', node, he, hlast⟩) | ⟨hmissing, hmain⟩
  · cases hfuel
  · cases hgreat
  · refine .inl ⟨node, hlast, ?_⟩
    have htyped := h.typed
    generalize world.points = points at hlast htyped
    cases points with
    | nil => cases hlast
    | cons point rest =>
      exact (htyped point List.mem_cons_self).refused node e (Option.some.inj hlast)
  · cases hmissing
    exact .inr ⟨rfl, hmain⟩

/-- The call of `main`, if there is one. -/
theorem triple_main {context : Context} (houter : tables.outer = [Tables.builtins])
    (hnumbered : tables.WellNumbered) (hformed : Tables.WellFormed tables.chain)
    (hglobals : context.globals = tables.inner)
    (hfunctions : ∀ {name parameters types resultType body signature},
      .function name parameters types resultType body signature ∈ context.functions →
        (tables.inner.findFunction? name parameters.length).isSome = true) (fuel : Nat) :
    Triple (Fails context.functions) (fun world => world.Agrees context ∧ 1 ≤ world.next)
      (callByName fuel "main" 0 []) fun _ world => world.Agrees context ∧ 1 ≤ world.next := by
  have hplace := agrees_outermost houter hnumbered hglobals
  -- whether there is a `main` is seen from the signatures alone
  cases hmain : Chain.findFunction? tables.chain "main" 0 with
  | some f =>
    have hsafe : Safe context 1 (callByName fuel "main" 0 []) fun value => value.Fits f.result := by
      apply (safe_findFunction hplace hmain).bind
      intro routine hroutine
      have hparameters : f.parameters = [] := List.length_eq_zero_iff.mp (hformed.arity_eq hmain)
      exact safe_invoke fuel hroutine (by rw [hparameters]; exact .nil) hplace
    exact Triple.mono hsafe (fun _ _ h => h.1) fun _ _ => Stops.fails
  | none =>
    rintro world ⟨hworld, -⟩
    have hrel : Option.Rel _ _ (Chain.findFunction? (Place.outermost.locals ++ world.outerChain)
        "main" 0) := hplace.findFunction? hworld
    rw [hmain] at hrel
    generalize hroutine : Chain.findFunction? (Place.outermost.locals ++ world.outerChain) "main" 0
      = found at hrel
    cases hrel with
    | none =>
      have hresult : callByName fuel "main" 0 [] world =
          .error (.error (.scope (.undefinedFunction "main" 0))) world := by
        have hfind : findFunction .outermost "main" 0 world =
            .error (.error (.scope (.undefinedFunction "main" 0))) world := by
          rw [findFunction, get_bind_apply, Chain.lookupFunction, hroutine]
          rfl
        rw [callByName, bind_apply, hfind]
      rw [hresult]
      refine ⟨hworld.typed, hworld.bound, .inr ⟨rfl, ?_⟩⟩
      intro types resultType body signature hmem
      -- a function of that name would have been declared
      have hsome : (tables.inner.findFunction? "main" 0).isSome = true := hfunctions hmem
      rw [Tables.chain, Chain.findFunction?_cons, Option.or_eq_none_iff] at hmain
      rw [hmain.1] at hsome
      cases hsome

theorem atTop_initial (transcript : Transcript) :
    AtTop functions .initial [] (.initial transcript) :=
  ⟨⟨.nil, .nil, ⟨rfl, by simp⟩, by simp [World.initial], by simp [World.initial]⟩, Nat.le_refl 1⟩

/-- The state behind the global variables agrees with the table that has all signatures, though no
function has been defined yet. -/
theorem AtTop.agreesUpTo {nodes : List Node} {elements : List Ty} {world : World}
    (h : AtTop functions tables elements world) (houtermost : Outermost tables)
    (hdeclared : DeclaredFunctions tables nodes after) :
    world.AgreesUpTo { globals := after.inner, functions, elements } tables.inner.funs := by
  refine ⟨?_, ?_, h.1.heap, h.1.typed, h.1.bound⟩
  · have hvars : after.inner.vars = tables.inner.vars := by rw [hdeclared.eq]
    rw [hvars]
    exact h.1.vars
  · rw [houtermost.funs, houtermost.funs_eq_nil h.1]
    exact .nil

/-- Whatever happens in the run of a well-typed program is wanted. -/
theorem triple_runProgram {globals functions : List Node} {bindings : List (List Binding)}
    (htyped : TypedProgram globals functions bindings) (fuel : Nat) (transcript : Transcript) :
    Triple (Fails functions) (fun world => world = .initial transcript)
      (runProgram fuel bindings (.program globals functions))
      fun _ world => (∀ point ∈ world.points, point.Typed) ∧
        ∀ point ∈ world.points, point.Bound functions := by
  obtain ⟨behind, declared, after, hglobals, hdeclared, hfunctions⟩ := htyped.exists_tables
  have hinitial : Outermost .initial :=
    ⟨rfl, rfl, .nil, fun _ hmem => absurd hmem List.not_mem_nil⟩
  have hbehind := hinitial.grows hglobals.grows
  have hnumbered := hdeclared.wellNumbered hbehind.numbered
  have houter : declared.outer = [Tables.builtins] := by
    rw [hdeclared.eq]
    exact hbehind.outer
  have hformed := hdeclared.wellFormed (hglobals.grows.wellFormed wellFormed_initial)
  apply Triple.bind (Q := fun _ world => ∃ elements, AtTop functions .initial elements world)
  · rintro world rfl
    exact ⟨[], (atTop_initial transcript).withTranscript⟩
  intro _
  apply (Triple.mono (triple_globals hinitial hglobals) (fun _ _ h => h) fun _ _ =>
    Stops.fails).bind
  intro _ world hworld
  obtain ⟨elements, hworld⟩ := hworld
  -- from here on the table of the top level and the types of the lists stay the same
  let context : Context := { globals := declared.inner, functions, elements }
  have hdefine : Triple (Fails functions)
      (fun world => world.AgreesUpTo context behind.inner.funs ∧ 1 ≤ world.next)
      (defineFunctions functions bindings)
      fun _ world => world.Agrees context ∧ 1 ≤ world.next :=
    Triple.mono (triple_defineFunctions hdeclared hfunctions (by rw [Tables.chain, houter])
      hnumbered fun _ h => h) (fun _ _ h => h) fun _ _ => Stops.fails
  have hmain : Triple (Fails functions) (fun world => world.Agrees context ∧ 1 ≤ world.next)
      (callByName fuel "main" 0 []) fun _ world => world.Agrees context ∧ 1 ≤ world.next :=
    triple_main houter hnumbered hformed rfl hdeclared.findFunction?_of_mem fuel
  have hstart : world.AgreesUpTo context behind.inner.funs := hworld.agreesUpTo hbehind hdeclared
  refine Triple.bind hdefine (fun _ => Triple.bind hmain fun result => ?_) world ⟨hstart, hworld.2⟩
  exact fun _ hworld => ⟨hworld.1.typed, hworld.1.bound⟩

/-- What has happened when a run ended, in whatever way. -/
def pointsBehind {α : Type} : EStateM.Result Failure World α → List Point
  | .ok _ world => world.points
  | .error _ world => world.points

/-- The same with the run as a whole. -/
theorem sound_runProgram {globals functions : List Node} {bindings : List (List Binding)}
    (htyped : TypedProgram globals functions bindings) (fuel : Nat) (transcript : Transcript)
    {result : EStateM.Result Failure World Value}
    (hresult : runProgram fuel bindings (.program globals functions) (.initial transcript) =
      result) :
    (∀ point ∈ pointsBehind result, point.Typed) ∧
      (∀ point ∈ pointsBehind result, point.Bound functions) ∧
        ∀ failure world, result = .error failure world → Fails functions failure world := by
  have htriple := triple_runProgram htyped fuel transcript (.initial transcript) rfl
  rw [hresult] at htriple
  cases result with
  | ok value world => exact ⟨htriple.1, htriple.2, fun _ _ h => nomatch h⟩
  | error failure world =>
    refine ⟨htriple.typed, htriple.bound, ?_⟩
    rintro _ _ ⟨⟩
    exact htriple

end Watched

end BlockScript

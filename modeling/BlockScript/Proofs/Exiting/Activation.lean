import BlockScript.Proofs.Exiting.Agreement
/-!
# A return ends its own activation

A function that is left by a return is left at once: the value of the return is the last thing that
is evaluated in this activation, however deep in blocks the return stands, and nothing is evaluated
behind it before the call has its value. All of this goes on without the functions that wait for the
call; they are not left.

## Main definitions

* `Node.returned` — the values of the returns in a statement
* `Watched.EndsIn` — computations that end with one of several values if they have an outcome

## Main results

* `Watched.executeBlock_endsIn` — a block with an outcome ends with the value of a return in it
* `return_ends_its_activation` — returns are exits that calls catch
-/

namespace BlockScript

namespace Node

mutual

/-- The values of the returns in a statement. -/
def returned : Node → List Node
  | ret value => [value]
  | branch _ thenBody elseBody => returnedIn thenBody ++ returnedIn elseBody
  | switch _ cases => returnedIn cases
  | case _ body => returnedIn body
  | loop _ body => returnedIn body
  | _ => []

/-- The values of the returns in several statements. -/
def returnedIn : List Node → List Node
  | [] => []
  | node :: rest => node.returned ++ returnedIn rest

end

end Node

namespace Watched

open BlockScript.Watched.Run

variable {α : Type} {values more : List Node} {place : Place}

/-- The other place is in the same activation, in this block or deeper. Entries have numbers of
their own, so no other activation has them. -/
def Place.Encloses (place inner : Place) : Prop :=
  inner.callers = place.callers ∧ place.entries <:+ inner.entries

/-- The last thing that happened is that one of several expressions got a value, in the activation
of the given place. -/
def Last (values : List Node) (place : Place) (result : Value) (points : List Point) : Prop :=
  ∃ value ∈ values, ∃ point, points.head? = some point ∧ point.event = .evaluated value result ∧
    place.Encloses point.place

/-- A computation that ends its function does so as soon as one of several expressions has a
value. -/
def EndsIn (values : List Node) (place : Place) (x : Run (Option Value × Chain)) : Prop :=
  ∀ world result locals after, x world = .ok (some result, locals) after →
    Last values place result after.points

namespace EndsIn

variable {x y : Run (Option Value × Chain)}

theorem mono (h : EndsIn values place x) (hsub : values ⊆ more) : EndsIn more place x := by
  intro world result locals after hrun
  obtain ⟨value, hvalue, hlast⟩ := h world result locals after hrun
  exact ⟨value, hsub hvalue, hlast⟩

theorem done (locals : Chain) : EndsIn values place (pure (none, locals)) := by
  intro world result locals after hrun
  cases hrun

theorem throw (failure : Failure) : EndsIn values place (throw failure) := by
  intro world result locals after hrun
  cases hrun

theorem ite {p : Prop} [Decidable p] (h : EndsIn values place x) (h' : EndsIn values place y) :
    EndsIn values place (if p then x else y) := by
  split
  · exact h
  · exact h'

theorem bind {x : Run α} {next : α → Run (Option Value × Chain)}
    (hnext : ∀ a, EndsIn values place (next a)) : EndsIn values place (x >>= next) := by
  intro world result locals after hrun
  obtain ⟨a, middle, -, hrest⟩ := bind_apply_eq_ok_iff.mp hrun
  exact hnext a middle result locals after hrest

/-- An outcome is passed on, and nothing happens behind it. -/
theorem next {rest : Option Value × Chain → Run (Option Value × Chain)}
    (h : EndsIn values place x) (hend : ∀ locals, EndsIn values place (rest (none, locals)))
    (houtcome : ∀ result locals, ∃ behind, rest (some result, locals) =
      pure (some result, behind)) : EndsIn values place (x >>= rest) := by
  intro world result locals after hrun
  obtain ⟨outcome, middle, hx, hrest⟩ := bind_apply_eq_ok_iff.mp hrun
  cases outcome with
  | mk found behind =>
    cases found with
    | none => exact hend behind middle result locals after hrest
    | some value =>
      obtain ⟨last, hpassed⟩ := houtcome value behind
      rw [hpassed] at hrest
      cases hrest
      exact h world result behind after hx

/-- A block in a frame of its own ends as the block does. -/
theorem inside {place : Place} {block : Place → Run (Option Value × Chain)}
    (h : ∀ entry, EndsIn values (place.enter entry) (block (place.enter entry))) :
    EndsIn values place (Watched.inside place block) := by
  intro world result locals after hrun
  have hleave : EndsIn values (place.enter world.next)
      (block (place.enter world.next) >>= fun outcome => pure (outcome.1, outcome.2.tail)) := by
    apply next (h world.next)
    · intro behind
      exact done behind.tail
    · intro found behind
      exact ⟨behind.tail, rfl⟩
  obtain ⟨value, hvalue, point, hhead, hevent, hcallers, hentries⟩ :=
    hleave { world with next := world.next + 1 } result locals after hrun
  -- the block is deeper in the activation
  have hdeeper : place.entries <:+ point.place.entries :=
    (List.suffix_cons world.next place.entries).trans hentries
  exact ⟨value, hvalue, point, hhead, hevent, hcallers, hdeeper⟩

/-- A return ends with its own value. -/
theorem ret (fuel : Nat) (place : Place) (value : Node) :
    EndsIn [value] place (execute (fuel + 1) place (.ret value)) := by
  intro world result locals after hrun
  have hreturn : execute (fuel + 1) place (.ret value) =
      evaluate fuel place value >>= fun result => pure (some result, place.locals) := rfl
  rw [hreturn] at hrun
  obtain ⟨found, middle, hvalue, hrest⟩ := bind_apply_eq_ok_iff.mp hrun
  cases hrest
  exact ⟨value, List.mem_cons_self, _, evaluate_reports hvalue, rfl, rfl, List.suffix_rfl⟩

end EndsIn

mutual

theorem execute_endsIn : ∀ (fuel : Nat) (place : Place) (node : Node),
    EndsIn node.returned place (execute fuel place node)
  | 0, _, _ => .throw _
  | fuel + 1, place, node => by
    cases node with
    | discard expression =>
      apply EndsIn.bind
      intro _
      exact .done _
    | declaration name _ value binding =>
      have hrest : ∀ initial, EndsIn [] place (do
          let locals ← declare place name
            { value := initial, mutable := true, origin := binding, entry := place.entries.headD 0 }
          note 2 fun world => "declare " ++ name ++ " = " ++ world.textOf initial
          return (none, locals)) := by
        intro initial
        apply EndsIn.bind
        intro locals
        apply EndsIn.bind
        intro _
        exact .done _
      exact .ite (.bind hrest) (.bind hrest)
    | assignment receiver value =>
      apply EndsIn.bind
      intro result
      cases receiver with
      | access name offset _ _ =>
        apply EndsIn.bind
        intro slot
        apply EndsIn.ite
        · refine .ite (.bind fun locals => .bind fun _ => ?_) (.throw _)
          exact .done _
        · refine .bind fun handle => .bind fun position => .bind fun index => .bind fun _ => ?_
          exact .bind fun _ => .done _
      | _ => exact .throw _
    | branch condition thenBody elseBody =>
      apply EndsIn.bind
      intro chosen
      apply EndsIn.bind
      intro holds
      apply EndsIn.bind
      intro _
      apply EndsIn.inside
      intro entry
      -- one of the two bodies is executed
      cases holds with
      | true =>
        exact (executeBlock_endsIn fuel (place.enter entry) thenBody).mono
          (List.subset_append_left _ _)
      | false =>
        exact (executeBlock_endsIn fuel (place.enter entry) elseBody).mono
          (List.subset_append_right _ _)
    | switch condition cases =>
      apply EndsIn.bind
      intro chosen
      exact executeCases_endsIn fuel place chosen cases
    | loop condition body => exact executeLoop_endsIn fuel place condition body
    | ret value => exact .ret fuel place value
    | _ => exact .throw _

theorem executeBlock_endsIn : ∀ (fuel : Nat) (place : Place) (nodes : List Node),
    EndsIn (Node.returnedIn nodes) place (executeBlock fuel place nodes)
  | 0, _, _ => .throw _
  | _ + 1, _, [] => .done _
  | fuel + 1, place, statement :: rest => by
    apply EndsIn.next
    · exact (execute_endsIn fuel place statement).mono (List.subset_append_left _ _)
    · intro locals
      exact (executeBlock_endsIn fuel { place with locals } rest).mono
        (List.subset_append_right _ _)
    · intro result locals
      exact ⟨locals, rfl⟩

theorem executeCases_endsIn : ∀ (fuel : Nat) (place : Place) (chosen : Value) (nodes : List Node),
    EndsIn (Node.returnedIn nodes) place (executeCases fuel place chosen nodes)
  | 0, _, _, _ => .throw _
  | _ + 1, _, _, [] => .done _
  | fuel + 1, place, chosen, node :: rest => by
    have hrest : EndsIn (Node.returnedIn (node :: rest)) place
        (executeCases fuel place chosen rest) :=
      (executeCases_endsIn fuel place chosen rest).mono (List.subset_append_right _ _)
    cases node with
    | case value body =>
      have hbody : EndsIn (Node.returnedIn (.case value body :: rest)) place
          (inside place fun place => executeBlock fuel place body) := by
        apply EndsIn.inside
        intro entry
        exact (executeBlock_endsIn fuel (place.enter entry) body).mono
          (List.subset_append_left _ _)
      -- the case is taken without a look if it has no value
      apply EndsIn.ite
      · exact .bind fun _ => .ite hbody hrest
      · exact .bind fun _ => .bind fun _ => .bind fun _ => .ite hbody hrest
    | declaration | assignment | ret | global =>
      apply EndsIn.ite
      · exact .bind fun _ => .ite (.throw _) hrest
      · exact .bind fun _ => .bind fun _ => .bind fun _ => .ite (.throw _) hrest
    | _ => exact .throw _

theorem executeLoop_endsIn : ∀ (fuel : Nat) (place : Place) (condition : Node) (body : List Node),
    EndsIn (Node.returnedIn body) place (executeLoop fuel place condition body)
  | 0, _, _, _ => .throw _
  | fuel + 1, place, condition, body => by
    apply EndsIn.bind
    intro chosen
    apply EndsIn.bind
    intro holds
    apply EndsIn.ite _ (.done _)
    apply EndsIn.next
    · apply EndsIn.inside
      intro entry
      exact executeBlock_endsIn fuel (place.enter entry) body
    · intro locals
      exact executeLoop_endsIn fuel { place with locals } condition body
    · intro result locals
      exact ⟨locals, rfl⟩

end

/-! ### Calls -/

/-- How the body of a function ends: by the exit of one of its returns, which is the last thing in
this activation, or at its end, and then the result is nil. -/
def EndsWith (fuel : Nat) (place : Place) (body : List Node) (before : World) (result : Value)
    (after : World) : Prop :=
  (Exiting.executeBlock fuel place body before = .error (.returned result) after ∧
      Last (Node.returnedIn body) place result after.points) ∨
    result = .nil ∧ ∃ locals, Exiting.executeBlock fuel place body before = .ok locals after

/-- The result of a function is the one that its body ends with, and nothing happens behind that. -/
theorem endsWith_of_invoke {fuel : Nat} {name : String} {parameters : List String}
    {body : List Node} {signature : Option Signature} {bindings : List Binding}
    {arguments : List Value} {world : World} {result : Value} {after : World}
    (h : invoke (fuel + 1) place (.defined name parameters body signature bindings) arguments
      world = .ok result after) :
    ∃ locals before last, EndsWith fuel (place.call world.next locals) body before result last ∧
      after.points = last.points := by
  by_cases hcount : arguments.length = parameters.length
  case neg =>
    rw [invoke, if_neg hcount] at h
    cases h
  rw [invoke, if_pos hcount] at h
  obtain ⟨_, _, hnumber, h⟩ := bind_apply_eq_ok_iff.mp h
  cases hnumber
  obtain ⟨_, _, -, h⟩ := bind_apply_eq_ok_iff.mp h
  obtain ⟨locals, bound, -, h⟩ := bind_apply_eq_ok_iff.mp h
  obtain ⟨_, before, -, h⟩ := bind_apply_eq_ok_iff.mp h
  obtain ⟨outcome, last, hbody, h⟩ := bind_apply_eq_ok_iff.mp h
  refine ⟨locals, before, last, ?_⟩
  have hexit := congrFun (Exiting.executeBlock_eq fuel (place.call world.next locals) body) before
  rw [Exiting.raising, Exiting.bind_apply, Exiting.lift, hbody] at hexit
  cases outcome with
  | mk found behind =>
    cases found with
    | none =>
      cases h
      exact ⟨.inr ⟨rfl, behind, hexit⟩, rfl⟩
    | some value =>
      -- what is noted is not among the things that happen
      cases h
      exact ⟨.inl ⟨hexit, executeBlock_endsIn fuel _ body before result behind last hbody⟩, rfl⟩

/-- The value of a call is the result of the function, and where the call stands it is the next
thing that happens. -/
theorem invoke_of_evaluate_call {fuel : Nat} {name : String} {arguments : List Node}
    {type : Option Ty} {called : Option Signature} {world : World} {value : Value} {after : World}
    (h : evaluate (fuel + 1) place (.call name arguments type called) world = .ok value after) :
    ∃ values routine before last, invoke fuel place routine values before = .ok value last ∧
      after = last.see place (.evaluated (.call name arguments type called) value) := by
  obtain ⟨found, last, hcall, h⟩ := bind_apply_eq_ok_iff.mp h
  cases h
  obtain ⟨values, _, -, hcall⟩ := bind_apply_eq_ok_iff.mp hcall
  obtain ⟨routine, _, -, hcall⟩ := bind_apply_eq_ok_iff.mp hcall
  obtain ⟨_, _, -, hcall⟩ := bind_apply_eq_ok_iff.mp hcall
  obtain ⟨_, before, -, hcall⟩ := bind_apply_eq_ok_iff.mp hcall
  exact ⟨values, routine, before, last, hcall, rfl⟩

end Watched

/-- A return ends its own activation and nothing else. Programs and functions do what they do where
a return is an exit that only calls catch, and report the same. So a function whose body is left by
a return evaluates nothing behind the value of that return, which is its result; a function whose
body comes to its end has no value; and behind a call goes on the function that made it. -/
theorem return_ends_its_activation (fuel : Nat) :
    (∀ bindings node world,
      Watched.Exiting.eraseResult (Watched.Exiting.runProgram fuel bindings node world) =
        Watched.Exiting.withoutReturn (runProgram fuel node world.erase)) ∧
    (∀ routine arguments world, ∃ routine' world',
      Watched.Routine.erase routine' = routine ∧ Watched.World.erase world' = world ∧
        ∀ place, Watched.Exiting.eraseResult
            (Watched.Exiting.invoke fuel place routine' arguments world') =
          Watched.Exiting.withoutReturn (invoke fuel routine arguments world)) ∧
    (∀ bindings node, Watched.Exiting.runProgram fuel bindings node =
      Watched.Exiting.lift (Watched.runProgram fuel bindings node)) ∧
    (∀ place routine arguments, Watched.Exiting.invoke fuel place routine arguments =
      Watched.Exiting.lift (Watched.invoke fuel place routine arguments)) ∧
    (∀ place body, Watched.Exiting.executeBlock fuel place body =
      Watched.Exiting.raising (Watched.executeBlock fuel place body)) ∧
    (∀ place name parameters body signature bindings arguments world result after,
      Watched.invoke (fuel + 1) place (.defined name parameters body signature bindings) arguments
          world = .ok result after →
        ∃ locals before last, Watched.EndsWith fuel (place.call world.next locals) body before
          result last ∧ after.points = last.points) ∧
    (∀ place name arguments type called world value after,
      Watched.evaluate (fuel + 1) place (.call name arguments type called) world =
          .ok value after →
        ∃ values routine before last,
          Watched.invoke fuel place routine values before = .ok value last ∧
            after = last.see place (.evaluated (.call name arguments type called) value)) := by
  refine ⟨?_, ?_, Watched.Exiting.runProgram_eq fuel, Watched.Exiting.invoke_eq fuel,
    Watched.Exiting.executeBlock_eq fuel, ?_, ?_⟩
  · intro bindings node world
    rw [Watched.Exiting.runProgram_eq]
    exact Watched.Exiting.eraseResult_lift (Watched.erases_runProgram fuel bindings node) world
  · intro routine arguments world
    obtain ⟨routine', hroutine⟩ := Watched.Routine.exists_erase_eq routine
    obtain ⟨world', hworld⟩ := Watched.World.exists_erase_eq world
    refine ⟨routine', world', hroutine, hworld, fun place => ?_⟩
    rw [Watched.Exiting.invoke_eq, ← hroutine, ← hworld]
    exact Watched.Exiting.eraseResult_lift
      (Watched.erases_invoke fuel place routine' arguments) world'
  · intro place name parameters body signature bindings arguments world result after h
    exact Watched.endsWith_of_invoke h
  · intro place name arguments type called world value after h
    exact Watched.invoke_of_evaluate_call h

/-- A body with a return in a branch in an endless loop, and another return behind the loop. -/
def nestedReturns : List Node :=
  [.loop (.literal (.boolean true) none)
    [.branch (.literal (.boolean true) none) [.ret (.literal (.integer 1) none)] []],
   .ret (.literal (.integer 2) none)]

/-- A watched state with one function, whose returns are nested. -/
def nestedReturnsWorld : Watched.World :=
  { Watched.World.initial { verbosity := 3 } with
    top := { funs := [(("find", 0), .defined "find" [] nestedReturns none [])] } }

theorem return_ends_its_activation_nested :
    ∃ after called, Watched.invoke 10 .outermost (.defined "find" [] nestedReturns none []) []
        nestedReturnsWorld = .ok (.scalar (.integer 1)) after ∧
      (∃ locals before last,
        Watched.EndsWith 9 (Watched.Place.outermost.call 1 locals) nestedReturns before
          (.scalar (.integer 1)) last ∧ after.points = last.points) ∧
      Watched.evaluate 10 .outermost (.call "find" [] none none) nestedReturnsWorld =
        .ok (.scalar (.integer 1)) called ∧
      ∃ values routine before last, Watched.invoke 9 .outermost routine values before =
          .ok (.scalar (.integer 1)) last ∧
        called = last.see .outermost
          (.evaluated (.call "find" [] none none) (.scalar (.integer 1))) := by
  obtain ⟨-, -, -, -, -, hinvoke, hcall⟩ := return_ends_its_activation 9
  have hresult : Watched.invoke 10 .outermost (.defined "find" [] nestedReturns none []) []
      nestedReturnsWorld = .ok (.scalar (.integer 1)) _ := rfl
  have hvalue : Watched.evaluate 10 .outermost (.call "find" [] none none) nestedReturnsWorld =
      .ok (.scalar (.integer 1)) _ := rfl
  exact ⟨_, _, hresult, hinvoke _ _ _ _ _ _ _ _ _ _ hresult, hvalue, hcall _ _ _ _ _ _ _ _ hvalue⟩

end BlockScript

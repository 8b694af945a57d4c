import BlockScript.Proofs.Watched.Safety
/-!
# Expressions, statements and calls are safe

Whatever is well typed at a place can be evaluated or executed there safely: an expression has a
value that fits its type, a statement leaves a place that agrees with the tables behind it unless it
ends its function, and then the result fits the type of the function's result. The proofs are by
induction on the fuel, with one case for each rule of typing.

## Main definitions

* `Tables.InBody` — tables inside the body of a function
* `Watched.Goes` — how a statement ends

## Main results

* `Watched.safe_evaluate`, `Watched.safe_execute`, `Watched.safe_invoke`
-/

namespace BlockScript

/-- The tables stand inside the body of a function whose result has a certain type. -/
structure Tables.InBody (tables : Tables) (resultTy : Ty) : Prop where
  two_le : 2 ≤ tables.outer.length
  result : ∀ binding, tables.chain.findVariable? returnName = some binding →
    binding.type = some resultTy

namespace Tables.InBody

variable {tables after : Tables} {resultTy : Ty}

theorem enter (h : tables.InBody resultTy) : tables.enter.InBody resultTy :=
  ⟨Nat.le_succ_of_le h.two_le, fun binding hfound => h.result binding hfound⟩

theorem resume {inside : Tables} (h : tables.InBody resultTy) :
    (tables.resume inside).InBody resultTy :=
  ⟨h.two_le, h.result⟩

theorem grows (h : tables.InBody resultTy) (hgrows : tables.Grows after) :
    after.InBody resultTy := by
  induction hgrows with
  | refl => exact h
  | skip _ _ ih => exact ih ⟨h.two_le, h.result⟩
  | declare hname hdeclare _ ih =>
    obtain ⟨-, -, rfl⟩ := declare_eq_ok_iff.mp hdeclare
    refine ih ⟨h.two_le, fun binding hfound => h.result binding ?_⟩
    -- the new entry has another name
    simpa [Tables.chain, Chain.findVariable?, List.findSome?_cons, Frame.findVariable?,
      List.lookup_append, List.lookup_cons, beq_false_of_ne (Ne.symm hname)] using hfound

/-- The tables of a body begin with the type of the result. -/
theorem start {outer start : Tables} {result : Binding} (hlength : outer.chain.length = 2)
    (hdeclare : outer.enter.declare returnName (some resultTy) false false = .ok (result, start)) :
    start.InBody resultTy := by
  obtain ⟨-, rfl, rfl⟩ := declare_eq_ok_iff.mp hdeclare
  refine ⟨Nat.le_of_eq hlength.symm, ?_⟩
  rintro binding ⟨⟩
  rfl

end Tables.InBody

namespace Watched

open BlockScript.Watched.Run

/-- A statement ends: the function goes on behind it, or it has a result. -/
def Goes (context : Context) (bound : Nat) (after : Tables) (resultTy : Ty) (place : Place)
    (outcome : Option Value × Chain) : Prop :=
  match outcome.1 with
  | some result => result.Fits resultTy
  | none => { place with locals := outcome.2 }.Agrees context bound after

theorem Goes.resume {context : Context} {bound : Nat} {after inside : Tables} {resultTy : Ty}
    {place : Place} {outcome : Option Value × Chain}
    (h : Goes context bound after resultTy place outcome) (hle : after.fresh ≤ inside.fresh) :
    Goes context bound (after.resume inside) resultTy place outcome := by
  obtain ⟨_ | result, locals⟩ := outcome
  · exact Place.Agrees.resume h hle
  · exact h

section

variable {elements : List Ty} {binding : Binding} {ty : Ty} {value : Value}

theorem Holds.fits (h : Holds elements binding value) (hlist : binding.isList = false)
    (hty : binding.type = some ty) : value.Fits ty := by
  cases h with
  | value _ hown hfits =>
    obtain rfl := Option.some.inj (hown.symm.trans hty)
    exact hfits
  | list hown _ _ =>
    rw [hlist] at hown
    cases hown

theorem Holds.exists_handle (h : Holds elements binding value) (hlist : binding.isList = true)
    (hty : binding.type = some ty) :
    ∃ handle, value = .list handle ∧ elements[handle]? = some ty := by
  cases h with
  | value hown _ _ =>
    rw [hlist] at hown
    cases hown
  | @list own handle _ hown helement =>
    obtain rfl := Option.some.inj (hown.symm.trans hty)
    exact ⟨handle, rfl, helement⟩

end

theorem eq_of_text {op other : Operator} (h : op.text = other.text) : op = other := by
  have hop := Operator.ofText?_text op
  rw [h, Operator.ofText?_text] at hop
  exact (Option.some.inj hop).symm

variable {α : Type} {context : Context}

/-- All well-typed expressions are safe with some fuel. -/
def EvaluatesSafely (context : Context) (fuel : Nat) : Prop :=
  ∀ {bound : Nat} {tables : Tables} {place : Place} {node : Node} {ty : Ty},
    Typed tables.chain node ty → place.Agrees context bound tables →
    Safe context bound (evaluate fuel place node) fun value => value.Fits ty

/-- All well-typed blocks in the bodies of functions are safe with some fuel. -/
def ExecutesSafely (context : Context) (fuel : Nat) : Prop :=
  ∀ {bound : Nat} {tables after : Tables} {place : Place} {nodes : List Node} {resultTy : Ty},
    TypedBlock tables nodes after → tables.InBody resultTy → place.Agrees context bound tables →
    Safe context bound (executeBlock fuel place nodes) (Goes context bound after resultTy place)

variable {bound fuel : Nat} {tables after inside : Tables} {place : Place} {node : Node}
variable {resultTy : Ty}

/-! ### Expressions -/

/-- A condition has a truth value, or nil, which is refused. -/
theorem safe_condition {condition : Node} (hevaluate : EvaluatesSafely context fuel)
    (hcondition : Typed tables.chain condition .boolean)
    (hplace : place.Agrees context bound tables) {next : Bool → Run α} {Q : α → Prop}
    (hnext : ∀ holds, Safe context bound (next holds) Q) :
    Safe context bound
      (do
        let chosen ← evaluate fuel place condition
        next (← perform place node (BlockScript.Run.requireBoolean chosen))) Q := by
  apply (hevaluate hcondition hplace).bind
  intro chosen hchosen
  apply (safe_perform hplace (performs_requireBoolean hchosen)).bind
  intro holds _
  exact hnext holds

/-- The place of an item, in a list that a variable holds. -/
theorem safe_index {name : String} {offset : Node} {slot : Slot} {handle : Nat}
    (hevaluate : EvaluatesSafely context fuel) (hoffset : Typed tables.chain offset .integer)
    (hplace : place.Agrees context bound tables) (hslot : slot.value = .list handle)
    {next : Nat → Nat → Run α} {Q : α → Prop}
    (hnext : ∀ index, Safe context bound (next handle index) Q) :
    Safe context bound
      (do
        let handle ← perform place node (BlockScript.Run.requireList name slot.erase)
        let position ← evaluate fuel place offset
        let index ← perform place node (BlockScript.Run.requireOffset handle position)
        next handle index) Q := by
  apply (safe_perform hplace (performs_requireList hslot)).bind
  rintro _ rfl
  apply (hevaluate hoffset hplace).bind
  intro position hposition
  apply (safe_perform hplace (performs_requireOffset hposition)).bind
  intro index _
  exact hnext index

theorem safe_binary {op : Operator} {left right : Node} {a b ty : Ty}
    (hevaluate : EvaluatesSafely context fuel) (hleft : Typed tables.chain left a)
    (hright : Typed tables.chain right b) (hty : op.resultTy (some a) (some b) = .ok ty)
    (hplace : place.Agrees context bound tables) :
    Safe context bound (evaluate (fuel + 1) place (.binary op.text left right (some ty)))
      fun value => value.Fits ty := by
  apply safe_evaluating hplace rfl
  -- `&&` and `||` go through the right operand only if the left one does not decide
  have hsecond : b = .boolean → Safe context bound
      (do
        let second ← evaluate fuel place right
        return Value.scalar (.boolean (← perform place (.binary op.text left right (some ty))
          (BlockScript.Run.requireBoolean second))))
      fun value => value.Fits .boolean := by
    rintro rfl
    apply safe_condition hevaluate hright hplace
    intro holds
    exact safe_pure (Value.Fits.of_ty rfl)
  apply (hevaluate hleft hplace).bind
  intro first hfirst
  apply safe_ite
  · intro hand
    obtain rfl : op = .and := eq_of_text hand
    obtain ⟨rfl, rfl, rfl⟩ := Operator.eq_boolean_of_logical (.inl rfl) hty
    apply (safe_perform hplace (performs_requireBoolean hfirst)).bind
    intro holds _
    exact safe_ite (fun _ => hsecond rfl) fun _ => safe_pure (Value.Fits.of_ty rfl)
  intro hand
  apply safe_ite
  · intro hor
    obtain rfl : op = .or := eq_of_text hor
    obtain ⟨rfl, rfl, rfl⟩ := Operator.eq_boolean_of_logical (.inr rfl) hty
    apply (safe_perform hplace (performs_requireBoolean hfirst)).bind
    intro holds _
    exact safe_ite (fun _ => safe_pure (Value.Fits.of_ty rfl)) fun _ => hsecond rfl
  intro hor
  -- all other operators take the values of both operands
  apply (hevaluate hright hplace).bind
  intro second hsecond
  have hneAnd : op ≠ .and := fun h => hand (by rw [h]; rfl)
  have hneOr : op ≠ .or := fun h => hor (by rw [h]; rfl)
  exact safe_perform hplace
    (performs_applyToValues hneAnd hneOr hty hleft.type?_eq hfirst hsecond)

theorem safe_variable {name : String} {binding : Binding} {ty : Ty} (hname : name ≠ returnName)
    (hfound : tables.chain.findVariable? name = some binding) (hlist : binding.isList = false)
    (hty : binding.type = some ty) (hplace : place.Agrees context bound tables) :
    Safe context bound (evaluate (fuel + 1) place (.access name .null (some ty) (some binding)))
      fun value => value.Fits ty := by
  apply safe_evaluating hplace rfl
  apply (safe_findVariable hplace hname hfound rfl).bind
  rintro slot ⟨entry, hslot⟩
  exact safe_pure (hslot.holds.fits hlist hty)

theorem safe_element {name : String} {offset : Node} {binding : Binding} {ty : Ty}
    (hevaluate : EvaluatesSafely context fuel) (hname : name ≠ returnName)
    (hoffset : Typed tables.chain offset .integer)
    (hfound : tables.chain.findVariable? name = some binding) (hlist : binding.isList = true)
    (hty : binding.type = some ty) (hplace : place.Agrees context bound tables) :
    Safe context bound (evaluate (fuel + 1) place (.access name offset (some ty) (some binding)))
      fun value => value.Fits ty := by
  apply safe_evaluating hplace rfl
  apply (safe_findVariable hplace hname hfound rfl).bind
  rintro slot ⟨entry, hslot⟩
  obtain ⟨handle, hvalue, helement⟩ := hslot.holds.exists_handle hlist hty
  apply safe_ite fun hnull => absurd hnull (by simp [hoffset.isNull_eq])
  intro _
  apply safe_index hevaluate hoffset hplace hvalue
  intro index
  exact safe_perform hplace (performs_readItem helement)

/-- A call reports the function that it finds. -/
theorem safe_invoked {name : String} {arguments : List Node} {type : Option Ty} {f : Signature}
    {routine : Routine} (hplace : place.Agrees context bound tables)
    (hroutine : routine.Agrees context f) :
    Safe context bound (report place (.invoked (.call name arguments type (some f)) routine))
      fun _ => True :=
  safe_report hplace fun _ => ⟨f, rfl, hroutine.is⟩

/-- The body of a function is executed in a frame that has its parameters only. -/
theorem safe_body {outer behind : Tables} {f : Signature} {name : String} {parameters : List String}
    {bindings : List Binding} {body : List Node} {arguments : List Value}
    (hexecute : ExecutesSafely context fuel)
    (hchain : outer.chain = [context.globals, Tables.builtins]) (hnumbered : outer.WellNumbered)
    (hbody : TypedBody outer f parameters bindings body behind)
    (harguments : List.Forall₂ Value.Fits arguments f.parameters)
    (hplace : place.Agrees context bound tables) :
    Safe context bound
      (invoke (fuel + 1) place (.defined name parameters body (some f) bindings) arguments)
      fun value => value.Fits f.result := by
  cases hbody with
  | @mk start inside _ result hdeclare hparameters hblock =>
    have hlength : arguments.length = parameters.length :=
      harguments.length_eq.trans hparameters.length_eq
    apply safe_ite _ fun hne => absurd hlength hne
    intro _
    apply safe_withEntry
    intro entry hentry
    have hstart := hplace.call hentry hchain hnumbered hdeclare
    have hinStart : start.InBody f.result := .start (by rw [hchain]; rfl) hdeclare
    apply (safe_bindParameters (place.call entry [{}]) hparameters hstart hinStart.two_le
      harguments).bind
    intro locals hlocals
    apply (safe_changed hlocals).bind
    intro _ _
    apply (hexecute hblock (hinStart.grows hparameters.grows) hlocals).bind
    intro outcome houtcome
    obtain ⟨_ | result, locals⟩ := outcome
    · -- a function that falls off its end has nil as its result
      exact safe_pure Value.Fits.nil
    · apply safe_note.bind
      intro _ _
      exact safe_pure houtcome

/-! ### Statements -/

theorem safe_declaration {name : String} {typeName : Option String} {value : Node} {ty : Ty}
    {binding : Binding} (hevaluate : EvaluatesSafely context fuel) (hname : name ≠ returnName)
    (hinitial : TypedInitial tables.chain ty value)
    (hdeclare : tables.declare name (some ty) true false = .ok (binding, after))
    (hbody : tables.InBody resultTy) (hplace : place.Agrees context bound tables) :
    Safe context bound (execute (fuel + 1) place (.declaration name typeName value (some binding)))
      (Goes context bound after resultTy place) := by
  have hrest : ∀ initial : Value, initial.Fits ty → Safe context bound
      (do
        let locals ← declare place name
          ⟨initial, true, some binding, place.entries.headD 0⟩
        note 2 fun world => "declare " ++ name ++ " = " ++ world.textOf initial
        return (none, locals))
      (Goes context bound after resultTy place) := by
    intro initial hfits
    apply (safe_declare hplace hbody.two_le hname hdeclare hfits).bind
    intro locals hlocals
    apply safe_note.bind
    intro _ _
    exact safe_pure hlocals
  cases hinitial with
  | absent => exact hrest .nil .nil
  | present h haccepts =>
    apply safe_ite fun hnull => absurd hnull (by simp [h.isNull_eq])
    intro _
    apply (hevaluate h hplace).bind
    intro initial hfits
    exact hrest initial (hfits.mono haccepts)

theorem safe_assignment {name : String} {offset value : Node} {binding : Binding} {ty own : Ty}
    (hevaluate : EvaluatesSafely context fuel) (hvalue : Typed tables.chain value own)
    (hreceiver : Typed tables.chain (.access name offset (some ty) (some binding)) ty)
    (hmutable : binding.mutable = true) (haccepts : Ty.accepts (some ty) (some own) = true)
    (hplace : place.Agrees context bound tables) :
    Safe context bound
      (execute (fuel + 1) place
        (.assignment (.access name offset (some ty) (some binding)) value))
      (Goes context bound tables resultTy place) := by
  apply (hevaluate hvalue hplace).bind
  intro result hresult
  have hfits := hresult.mono haccepts
  cases hreceiver with
  | «variable» hname hfound hlist hty =>
    apply (safe_findVariable hplace hname hfound rfl).bind
    rintro slot ⟨entry, hslot⟩
    apply safe_ite _ fun h => absurd rfl h
    intro _
    apply safe_ite _ fun h => absurd (hslot.mutable.trans hmutable) h
    intro _
    apply (safe_assign hplace hname hfound (.value hlist hty hfits)).bind
    intro locals hlocals
    apply (safe_changed hlocals).bind
    intro _ _
    exact safe_pure hlocals
  | element hname hoffset hfound hlist hty =>
    apply (safe_findVariable hplace hname hfound rfl).bind
    rintro slot ⟨entry, hslot⟩
    obtain ⟨handle, hslotValue, helement⟩ := hslot.holds.exists_handle hlist hty
    apply safe_ite fun hnull => absurd hnull (by simp [hoffset.isNull_eq])
    intro _
    apply safe_index hevaluate hoffset hplace hslotValue
    intro index
    apply (safe_perform hplace (performs_writeItem helement hfits)).bind
    intro _ _
    apply (safe_changed hplace).bind
    intro _ _
    exact safe_pure hplace

/-- A block in a frame of its own. -/
theorem safe_inside {body : List Node} (hexecute : ExecutesSafely context fuel)
    (hblock : TypedBlock tables.enter body inside) (hbody : tables.InBody resultTy)
    (hplace : place.Agrees context bound tables) :
    Safe context bound (Watched.inside place fun place => executeBlock fuel place body)
      (Goes context bound (tables.resume inside) resultTy place) := by
  apply safe_withEntry
  intro entry hentry
  apply (hexecute hblock hbody.enter (hplace.enter hentry)).bind
  intro outcome houtcome
  obtain ⟨_ | result, locals⟩ := outcome
  · exact safe_pure (hplace.leave hblock.grows.outer_eq hblock.grows.fresh_le houtcome)
  · exact safe_pure houtcome

theorem safe_branch {condition : Node} {thenBody elseBody : List Node} {inThen inElse : Tables}
    (hevaluate : EvaluatesSafely context fuel) (hexecute : ExecutesSafely context fuel)
    (hcondition : Typed tables.chain condition .boolean)
    (hthen : TypedBlock tables.enter thenBody inThen)
    (helse : TypedBlock (tables.resume inThen).enter elseBody inElse)
    (hbody : tables.InBody resultTy) (hplace : place.Agrees context bound tables) :
    Safe context bound (execute (fuel + 1) place (.branch condition thenBody elseBody))
      (Goes context bound (tables.resume inElse) resultTy place) := by
  apply safe_condition hevaluate hcondition hplace
  intro holds
  apply safe_note.bind
  intro _ _
  cases holds with
  | true =>
    -- the numbers of the other part stay used up
    apply (safe_inside hexecute hthen hbody hplace).mono
    intro outcome houtcome
    exact houtcome.resume helse.grows.fresh_le
  | false =>
    have hinside := safe_inside hexecute helse hbody.resume (hplace.resume hthen.grows.fresh_le)
    exact hinside

/-- The body of a case that is chosen. The cases behind it are left out. -/
theorem safe_chosen {body rest : List Node} (hexecute : ExecutesSafely context fuel)
    (hblock : TypedBlock tables.enter body inside)
    (hrest : TypedCases (tables.resume inside) rest after) (hbody : tables.InBody resultTy)
    (hplace : place.Agrees context bound tables) :
    Safe context bound (Watched.inside place fun place => executeBlock fuel place body)
      (Goes context bound after resultTy place) := by
  rw [hrest.eq_resume]
  apply (safe_inside hexecute hblock hbody hplace).mono
  intro outcome houtcome
  exact houtcome.resume hrest.grows.fresh_le

/-! ### Any amount of fuel -/

mutual

theorem safe_evaluate : ∀ (fuel : Nat) {bound : Nat} {tables : Tables} {place : Place}
    {node : Node} {ty : Ty}, Typed tables.chain node ty → place.Agrees context bound tables →
    Safe context bound (evaluate fuel place node) fun value => value.Fits ty
  | 0, _, _, _, _, _, _, _ => safe_outOfFuel
  | fuel + 1, bound, tables, place, node, ty, htyped, hplace => by
    cases htyped with
    | literal =>
      apply safe_evaluating hplace rfl
      exact safe_pure (Value.Fits.of_ty rfl)
    | group h =>
      apply safe_evaluating hplace rfl
      exact safe_evaluate fuel h hplace
    | binary hop hleft hright hty =>
      obtain rfl := Operator.text_of_ofText? hop
      exact safe_binary (@safe_evaluate fuel) hleft hright hty hplace
    | «variable» hname hfound hlist hty => exact safe_variable hname hfound hlist hty hplace
    | element hname hoffset hfound hlist hty =>
      exact safe_element (@safe_evaluate fuel) hname hoffset hfound hlist hty hplace
    | @call name arguments f hfound harguments =>
      apply safe_evaluating hplace rfl
      apply (safe_evaluateAll fuel harguments hplace).bind
      intro values hvalues
      have hlength : values.length = arguments.length :=
        hvalues.length_eq.trans harguments.length_eq.symm
      apply (safe_findFunction hplace (by rw [hlength]; exact hfound)).bind
      intro routine hroutine
      apply (safe_invoked hplace hroutine).bind
      intro _ _
      apply safe_note.bind
      intro _ _
      exact safe_invoke fuel hroutine hvalues hplace

theorem safe_evaluateAll : ∀ (fuel : Nat) {bound : Nat} {tables : Tables} {place : Place}
    {nodes : List Node} {types : List Ty}, TypedArguments tables.chain nodes types →
    place.Agrees context bound tables →
    Safe context bound (evaluateAll fuel place nodes) fun values =>
      List.Forall₂ Value.Fits values types
  | 0, _, _, _, _, _, _, _ => safe_outOfFuel
  | fuel + 1, bound, tables, place, nodes, types, htyped, hplace => by
    cases htyped with
    | nil => exact safe_pure .nil
    | cons h haccepts hrest =>
      apply (safe_evaluate fuel h hplace).bind
      intro first hfirst
      apply (safe_evaluateAll fuel hrest hplace).bind
      intro others hothers
      exact safe_pure (.cons (hfirst.mono haccepts) hothers)

theorem safe_invoke : ∀ (fuel : Nat) {bound : Nat} {tables : Tables} {place : Place} {f : Signature}
    {routine : Routine} {arguments : List Value}, routine.Agrees context f →
    List.Forall₂ Value.Fits arguments f.parameters → place.Agrees context bound tables →
    Safe context bound (invoke fuel place routine arguments) fun value => value.Fits f.result
  | 0, _, _, _, _, _, _, _, _, _ => safe_outOfFuel
  | fuel + 1, bound, tables, place, f, routine, arguments, hroutine, harguments, hplace => by
    cases hroutine with
    | print =>
      cases harguments with
      | cons hfits hrest =>
        apply (safe_perform hplace performs_print).bind
        intro _ _
        exact safe_pure Value.Fits.nil
    | defined hchain hnumbered hbody hmem =>
      exact safe_body (@safe_executeBlock fuel) hchain hnumbered hbody harguments hplace

theorem safe_execute : ∀ (fuel : Nat) {bound : Nat} {tables after : Tables} {place : Place}
    {node : Node} {resultTy : Ty}, TypedStatement tables node after →
    tables.InBody resultTy → place.Agrees context bound tables →
    Safe context bound (execute fuel place node) (Goes context bound after resultTy place)
  | 0, _, _, _, _, _, _, _, _, _ => safe_outOfFuel
  | fuel + 1, bound, tables, after, place, node, resultTy, htyped, hbody, hplace => by
    cases htyped with
    | discard h =>
      apply (safe_evaluate fuel h hplace).bind
      intro _ _
      exact safe_pure hplace
    | declaration hname hinitial hdeclare =>
      exact safe_declaration (@safe_evaluate fuel) hname hinitial hdeclare hbody hplace
    | assignment hvalue hreceiver hmutable haccepts =>
      exact safe_assignment (@safe_evaluate fuel) hvalue hreceiver hmutable haccepts hplace
    | branch hcondition hthen helse =>
      exact safe_branch (@safe_evaluate fuel) (@safe_executeBlock fuel) hcondition hthen helse
        hbody hplace
    | switch hcondition hcases =>
      apply (safe_evaluate fuel hcondition hplace).bind
      intro chosen _
      exact safe_executeCases fuel hcases hbody hplace
    | loop hcondition hblock => exact safe_executeLoop fuel hcondition hblock hbody hplace
    | ret hvalue hfound hresult haccepts =>
      apply (safe_evaluate fuel hvalue hplace).bind
      intro result hfits
      obtain rfl := Option.some.inj ((hbody.result _ hfound).symm.trans hresult)
      exact safe_pure (hfits.mono haccepts)

theorem safe_executeBlock : ∀ (fuel : Nat) {bound : Nat} {tables after : Tables} {place : Place}
    {nodes : List Node} {resultTy : Ty}, TypedBlock tables nodes after →
    tables.InBody resultTy → place.Agrees context bound tables →
    Safe context bound (executeBlock fuel place nodes) (Goes context bound after resultTy place)
  | 0, _, _, _, _, _, _, _, _, _ => safe_outOfFuel
  | fuel + 1, bound, tables, after, place, nodes, resultTy, htyped, hbody, hplace => by
    cases htyped with
    | nil => exact safe_pure hplace
    | cons h hrest =>
      apply (safe_execute fuel h hbody hplace).bind
      intro outcome houtcome
      obtain ⟨_ | result, locals⟩ := outcome
      · exact safe_executeBlock fuel hrest (hbody.grows h.grows) houtcome
      · exact safe_pure houtcome

theorem safe_executeCases : ∀ (fuel : Nat) {bound : Nat} {tables after : Tables} {place : Place}
    {chosen : Value} {nodes : List Node} {resultTy : Ty}, TypedCases tables nodes after →
    tables.InBody resultTy → place.Agrees context bound tables →
    Safe context bound (executeCases fuel place chosen nodes)
      (Goes context bound after resultTy place)
  | 0, _, _, _, _, _, _, _, _, _, _ => safe_outOfFuel
  | fuel + 1, bound, tables, after, place, chosen, nodes, resultTy, htyped, hbody, hplace => by
    cases htyped with
    | nil => exact safe_pure hplace
    | default hblock hrest => exact safe_chosen (@safe_executeBlock fuel) hblock hrest hbody hplace
    | valued hvalue hblock hrest =>
      apply safe_ite fun hnull => absurd hnull (by simp [hvalue.isNull_eq])
      intro _
      apply (safe_evaluate fuel hvalue hplace).bind
      intro found _
      apply safe_get
      intro world _
      apply safe_ite
      · intro _
        exact safe_chosen (@safe_executeBlock fuel) hblock hrest hbody hplace
      · intro _
        exact safe_executeCases fuel hrest hbody.resume (hplace.resume hblock.grows.fresh_le)

theorem safe_executeLoop : ∀ (fuel : Nat) {bound : Nat} {tables inside : Tables} {place : Place}
    {condition : Node} {body : List Node} {resultTy : Ty}, Typed tables.chain condition .boolean →
    TypedBlock tables.enter body inside → tables.InBody resultTy →
    place.Agrees context bound tables →
    Safe context bound (executeLoop fuel place condition body)
      (Goes context bound (tables.resume inside) resultTy place)
  | 0, _, _, _, _, _, _, _, _, _, _, _ => safe_outOfFuel
  | fuel + 1, bound, tables, inside, place, condition, body, resultTy, hcondition, hblock, hbody,
      hplace => by
    apply safe_condition (@safe_evaluate fuel) hcondition hplace
    intro holds
    apply safe_ite
    · intro _
      apply (safe_inside (@safe_executeBlock fuel) hblock hbody hplace).bind
      intro outcome houtcome
      obtain ⟨_ | result, locals⟩ := outcome
      · -- the next round starts in the tables of this one
        have hagain : { place with locals }.Agrees context bound tables :=
          ⟨houtcome.locals, hplace.numbered, hplace.nodup, hplace.lt_bound, hplace.callers⟩
        exact safe_executeLoop fuel hcondition hblock hbody hagain
      · exact safe_pure houtcome
    · intro _
      exact safe_pure (hplace.resume hblock.grows.fresh_le)

end

end Watched

end BlockScript

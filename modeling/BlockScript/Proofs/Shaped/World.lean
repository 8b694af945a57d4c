import BlockScript.Proofs.Scoped.World
import BlockScript.Proofs.Shaped.Tree
/-!
# What runs of walkable trees keep

A run of a tree with a shape (`BlockScript.Proofs.Shaped.Tree`) goes from one state to the next in
which all functions have bodies of that shape, each under its own number of parameters, and all
scalars are allowed. Such a state makes every look-up end with something that the run has a rule
for, so a step from it fails with an error of the program, for lack of fuel, or because decimals
that are allowed have a result that is too great.

Indices and divisors are looked at before they are used: an index that was required is in range, and
an operator that has a result was not given a zero to divide by or a negative exponent.

## Main definitions

* `Scalar.Closed`, `Scalar.Overflowing` — what the operators make of scalars that are allowed
* `Frame.Within`, `World.Within` — tables and states with allowed scalars and walkable functions
* `Failure.Permitted` — the failures of runs of walkable trees
* `Run.Keeps` — computations that keep a state as it should be

## Main results

* `Run.Keeps.bind`, `Run.keeps_findVariable`, `Run.keeps_findFunction`, `Run.keeps_assign` — how
  such computations are made
* `Run.inRange_of_requireOffset`, `divides_of_applySymbol` — guards of partial operations
-/

namespace BlockScript

variable {allowed : Scalar → Prop}

/-! ### Values -/

/-- What a value shows is no scalar, or one that is allowed. -/
def Datum.Within (allowed : Scalar → Prop) : Datum → Prop
  | .scalar value => allowed value
  | .list _ => True

/-- A value is no scalar, or one that is allowed. -/
def Value.Within (allowed : Scalar → Prop) : Value → Prop
  | .scalar value => allowed value
  | .list _ => True

/-- A value shows a scalar only if it is one. -/
theorem Value.Within.datum {value : Value} (h : value.Within allowed) (world : World) :
    (world.datum value).Within allowed := by
  cases value with
  | scalar value =>
    rw [World.datum_scalar]
    exact h
  | list handle =>
    rw [World.datum]
    cases world.heap.size <;> trivial

/-- Conditions and results of operators are allowed if their operands are. -/
structure Scalar.Closed (allowed : Scalar → Prop) : Prop where
  nil : allowed .nil
  boolean (value : Bool) : allowed (.boolean value)
  apply {symbol : String} {a b : Datum} {result : Scalar} : a.Within allowed →
    b.Within allowed → applySymbol symbol a b = .ok result → allowed result

/-- Some operator on operands that are allowed has a result that is too great. -/
def Scalar.Overflowing (allowed : Scalar → Prop) : Prop :=
  ∃ (symbol : String) (a b : Datum), a.Within allowed ∧ b.Within allowed ∧
    applySymbol symbol a b = .error .overflow

theorem Scalar.closed_true : Closed fun _ => True :=
  ⟨trivial, fun _ => trivial, fun _ _ _ => trivial⟩

namespace Operator

variable {op : Operator} {a b : Datum} {result : Scalar}

/-- The result of an operator on decimals without powers of ten behind their digits is there, and
has none either. -/
theorem decimalResult_eq {value : Decimal} (h : value.exponent ≤ 0) :
    decimalResult value = .ok (.decimal value.rounded) := by
  rw [decimalResult, Decimal.overflows_of_exponent_nonpos h]
  rfl

/-- Arithmetic on such decimals is arithmetic on such decimals. -/
theorem exponent_nonpos {m n : Decimal} (hm : m.exponent ≤ 0) (hn : n.exponent ≤ 0) :
    (m.add n).exponent ≤ 0 ∧ (m.sub n).exponent ≤ 0 ∧ (m.mul n).exponent ≤ 0 ∧
      (m.divide n).exponent ≤ 0 := by
  have hadd : ∀ k : Decimal, (m.add k).exponent ≤ 0 :=
    fun k => Int.le_trans (Int.min_le_left _ _) hm
  exact ⟨hadd n, hadd n.negate, Int.add_nonpos hm hn, hm⟩

/-- An operator has a result without a power of ten behind its digits, or an error of the
program. -/
def Unscaled (outcome : Except OperationFault Scalar) : Prop :=
  (∀ result, outcome = .ok result → result.IsUnscaled) ∧ outcome ≠ .error .overflow

theorem unscaled_ok (h : result.IsUnscaled) : Unscaled (.ok result) :=
  ⟨fun _ hresult => Except.ok.inj hresult ▸ h, nofun⟩

theorem unscaled_refused {e : EvaluationError} : Unscaled (.error (.refused e)) :=
  ⟨nofun, nofun⟩

theorem unscaled_decimalResult {value : Decimal} (h : value.exponent ≤ 0) :
    Unscaled (decimalResult value) := by
  rw [decimalResult_eq h]
  exact unscaled_ok (Decimal.exponent_rounded_nonpos h)

theorem unscaled_applyOrder {wanted : Ordering} : Unscaled (applyOrder op wanted a b) := by
  unfold applyOrder
  split
  · exact unscaled_ok trivial
  · exact unscaled_refused

theorem unscaled_apply (ha : a.Within Scalar.IsUnscaled) (hb : b.Within Scalar.IsUnscaled) :
    Unscaled (op.apply a b) := by
  cases op with
  | plus =>
    change Unscaled (applyPlus a b)
    unfold applyPlus
    split
    · exact unscaled_ok trivial
    · exact unscaled_decimalResult (exponent_nonpos ha hb).1
    · split
      · exact unscaled_ok trivial
      · exact unscaled_refused
  | minus =>
    change Unscaled (applyMinus a b)
    unfold applyMinus
    split
    · exact unscaled_ok trivial
    · exact unscaled_decimalResult (exponent_nonpos ha hb).2.1
    · exact unscaled_refused
  | times =>
    change Unscaled (applyTimes a b)
    unfold applyTimes
    split
    · exact unscaled_ok trivial
    · exact unscaled_decimalResult (exponent_nonpos ha hb).2.2.1
    · exact unscaled_refused
  | divide =>
    change Unscaled (applyDivide a b)
    unfold applyDivide
    split
    · split
      · exact unscaled_refused
      · exact unscaled_ok trivial
    · split
      · exact unscaled_refused
      · exact unscaled_ok (exponent_nonpos ha hb).2.2.2
    · exact unscaled_refused
  | power =>
    change Unscaled (applyPower a b)
    unfold applyPower
    split
    · split
      · exact unscaled_refused
      · exact unscaled_ok trivial
    · exact unscaled_refused
  | less => exact unscaled_applyOrder
  | greater => exact unscaled_applyOrder
  | equal | unequal => exact unscaled_ok trivial
  | and | or => exact unscaled_refused

end Operator

theorem unscaled_applySymbol {symbol : String} {a b : Datum} (ha : a.Within Scalar.IsUnscaled)
    (hb : b.Within Scalar.IsUnscaled) : Operator.Unscaled (applySymbol symbol a b) := by
  unfold applySymbol
  split
  · exact Operator.unscaled_apply ha hb
  · exact Operator.unscaled_refused

/-- Decimals without powers of ten behind their digits are all that such decimals lead to. -/
theorem Scalar.closed_isUnscaled : Closed IsUnscaled :=
  ⟨trivial, fun _ => trivial, fun ha hb h => (unscaled_applySymbol ha hb).1 _ h⟩

/-- Digits in front of the point are not limited, so such decimals do not overflow. -/
theorem Scalar.not_overflowing_isUnscaled : ¬Overflowing IsUnscaled := by
  rintro ⟨symbol, a, b, ha, hb, h⟩
  exact (unscaled_applySymbol ha hb).2 h

/-- An operator that has a result was not given a zero to divide by, or a negative exponent. -/
theorem divides_of_applySymbol {m n : Int} {c d : Decimal} {result : Scalar} :
    (applySymbol "/" (.scalar (.integer m)) (.scalar (.integer n)) = .ok result → n ≠ 0) ∧
      (applySymbol "/" (.scalar (.decimal c)) (.scalar (.decimal d)) = .ok result →
        d.coefficient ≠ 0) ∧
      (applySymbol "^" (.scalar (.integer m)) (.scalar (.integer n)) = .ok result → 0 ≤ n) := by
  have hdivide : ∀ a b : Datum, applySymbol "/" a b = Operator.applyDivide a b := fun _ _ => rfl
  have hpower : ∀ a b : Datum, applySymbol "^" a b = Operator.applyPower a b := fun _ _ => rfl
  rw [hdivide, hdivide, hpower]
  refine ⟨?_, ?_, ?_⟩
  · rintro h rfl
    cases h
  · intro h hzero
    rw [Operator.applyDivide, if_pos (by simp [Decimal.isZero, hzero])] at h
    cases h
  · intro h
    by_contra hneg
    rw [Operator.applyPower, if_pos (Int.not_le.mp hneg)] at h
    cases h

/-! ### States -/

/-- A function that a run has a rule for when it is called with a number of arguments. The number of
arguments of other functions than `print` is looked at when they are called. -/
def Routine.Within (allowed : Scalar → Prop) (arity : Nat) : Routine → Prop
  | .print => arity = 1
  | .defined _ _ body => ∀ statement ∈ body, Node.IsStatement allowed statement

/-- A table with scalars that are allowed, and functions that a run has a rule for. -/
structure Frame.Within (allowed : Scalar → Prop) (frame : DynamicFrame) : Prop where
  vars : ∀ entry ∈ frame.vars, entry.2.value.Within allowed
  funs : ∀ entry ∈ frame.funs, entry.2.Within allowed entry.1.2

/-- A state with scalars that are allowed, and functions that a run has a rule for. -/
structure World.Within (allowed : Scalar → Prop) (world : World) : Prop where
  top : world.top.Within allowed
  heap : ∀ handle, ∀ item ∈ world.items handle, item.Within allowed

namespace Frame

variable {frame after : DynamicFrame} {name : String} {slot : Slot}

theorem within_empty : Frame.Within allowed {} :=
  ⟨List.forall_mem_nil _, List.forall_mem_nil _⟩

theorem within_builtins : World.builtins.Within allowed :=
  ⟨List.forall_mem_nil _, List.forall_mem_singleton.mpr rfl⟩

theorem Within.defineVariable (h : frame.Within allowed) (hslot : slot.value.Within allowed)
    (hdefine : frame.defineVariable name slot = .ok after) : after.Within allowed := by
  obtain ⟨-, rfl⟩ := defineVariable_eq_ok_iff.mp hdefine
  exact ⟨List.forall_mem_append.mpr ⟨h.vars, List.forall_mem_singleton.mpr hslot⟩, h.funs⟩

theorem Within.defineFunction {arity : Nat} {routine : Routine} (h : frame.Within allowed)
    (hroutine : routine.Within allowed arity)
    (hdefine : frame.defineFunction name arity routine = .ok after) : after.Within allowed := by
  obtain ⟨-, rfl⟩ := defineFunction_eq_ok_iff.mp hdefine
  exact ⟨h.vars, List.forall_mem_append.mpr ⟨h.funs, List.forall_mem_singleton.mpr hroutine⟩⟩

theorem Within.updateVariable {value : Value} (h : frame.Within allowed)
    (hvalue : value.Within allowed) :
    (frame.updateVariable name fun slot => { slot with value }).Within allowed := by
  refine ⟨?_, h.funs⟩
  simp only [Frame.updateVariable, List.forall_mem_map]
  intro entry hentry
  split
  · exact hvalue
  · exact h.vars entry hentry

end Frame

section

variable {chain : DynamicChain} {name : String}

theorem within_of_findVariable? (hchain : ∀ frame ∈ chain, frame.Within allowed) {slot : Slot}
    (h : Chain.findVariable? chain name = some slot) : slot.value.Within allowed := by
  obtain ⟨frame, hframe, hlookup⟩ := List.exists_of_findSome?_eq_some h
  obtain ⟨before, behind, hvars, -⟩ := List.lookup_eq_some_iff.mp hlookup
  exact (hchain frame hframe).vars (name, slot) (by simp [hvars])

theorem within_of_findFunction? (hchain : ∀ frame ∈ chain, frame.Within allowed) {arity : Nat}
    {routine : Routine} (h : Chain.findFunction? chain name arity = some routine) :
    routine.Within allowed arity := by
  obtain ⟨frame, hframe, hlookup⟩ := List.exists_of_findSome?_eq_some h
  obtain ⟨before, behind, hfuns, -⟩ := List.lookup_eq_some_iff.mp hlookup
  exact (hchain frame hframe).funs ((name, arity), routine) (by simp [hfuns])

theorem within_updateVariable (hchain : ∀ frame ∈ chain, frame.Within allowed) {value : Value}
    (hvalue : value.Within allowed) :
    ∀ frame ∈ Chain.updateVariable name (fun slot => { slot with value }) chain,
      frame.Within allowed := by
  induction chain with
  | nil => exact hchain
  | cons frame outer ih =>
    obtain ⟨hframe, houter⟩ := List.forall_mem_cons.mp hchain
    rw [Chain.updateVariable]
    split
    · exact List.forall_mem_cons.mpr ⟨hframe.updateVariable hvalue, houter⟩
    · exact List.forall_mem_cons.mpr ⟨hframe, ih houter⟩

end

namespace World.Within

variable {world : World} {locals : DynamicChain}

/-- The frames that a place sees. -/
theorem chain (h : world.Within allowed) (hlocals : ∀ frame ∈ locals, frame.Within allowed) :
    ∀ frame ∈ locals ++ world.outerChain, frame.Within allowed :=
  List.forall_mem_append.mpr
    ⟨hlocals, List.forall_mem_cons.mpr ⟨h.top, List.forall_mem_singleton.mpr Frame.within_builtins⟩⟩

theorem withTop {top : DynamicFrame} (h : world.Within allowed) (htop : top.Within allowed) :
    World.Within allowed { world with top } :=
  ⟨htop, h.heap⟩

theorem withTranscript {transcript : Transcript} (h : world.Within allowed) :
    World.Within allowed { world with transcript } :=
  ⟨h.top, h.heap⟩

theorem push {items : List Value} (h : world.Within allowed)
    (hitems : ∀ item ∈ items, item.Within allowed) :
    World.Within allowed { world with heap := world.heap.push items } := by
  refine ⟨h.top, fun handle => ?_⟩
  have hother := h.heap handle
  unfold World.items at hother ⊢
  simp only [Array.getElem?_push]
  split
  · exact hitems
  · exact hother

theorem set {handle index : Nat} {value : Value} (h : world.Within allowed)
    (hvalue : value.Within allowed) :
    World.Within allowed { world with
      heap := world.heap.modify handle fun items => items.set index value } := by
  refine ⟨h.top, fun other => ?_⟩
  have hother := h.heap other
  unfold World.items at hother ⊢
  simp only [Array.getElem?_modify]
  split
  · cases hitems : world.heap[other]? with
    | none => simp
    | some items =>
      rw [hitems] at hother
      intro item hmem
      rcases List.mem_or_eq_of_mem_set hmem with hmem | rfl
      · exact hother item hmem
      · exact hvalue
  · exact hother

end World.Within

theorem World.within_initial {verbosity : Int} : (World.initial verbosity).Within allowed := by
  refine ⟨Frame.within_empty, fun handle item hitem => ?_⟩
  simp [World.items, World.initial] at hitem

/-! ### Computations -/

/-- A failure that the run of a walkable tree can have. -/
inductive Failure.Permitted (allowed : Scalar → Prop) : Failure → Prop
  | error (e : EvaluationError) : Permitted allowed (.error e)
  | outOfFuel : Permitted allowed .outOfFuel
  | overflow : Scalar.Overflowing allowed → Permitted allowed .overflow

namespace Run

variable {α β : Type} {locals : DynamicChain} {name : String} {P : α → Prop} {Q : β → Prop}

/-- A computation keeps the state within what is allowed, and fails at most as it may. -/
def Keeps (allowed : Scalar → Prop) (x : Run α) (P : α → Prop) : Prop :=
  ∀ world, world.Within allowed →
    match x world with
    | .ok a after => after.Within allowed ∧ P a
    | .error failure after => after.Within allowed ∧ failure.Permitted allowed

theorem keeps_pure {a : α} (h : P a) : Keeps allowed (pure a) P :=
  fun _ hworld => ⟨hworld, h⟩

theorem keeps_throw {failure : Failure} (h : failure.Permitted allowed) :
    Keeps allowed (throw failure) P :=
  fun _ hworld => ⟨hworld, h⟩

theorem keeps_refuse (e : EvaluationError) : Keeps allowed (refuse e) P :=
  keeps_throw (.error e)

theorem Keeps.bind {x : Run α} {next : α → Run β} (h : Keeps allowed x P)
    (hnext : ∀ a, P a → Keeps allowed (next a) Q) : Keeps allowed (x >>= next) Q := by
  intro world hworld
  have hx := h world hworld
  rw [Scoped.bind_apply]
  cases hresult : x world with
  | ok a after =>
    rw [hresult] at hx
    exact hnext a hx.2 after hx.1
  | error failure after =>
    rw [hresult] at hx
    exact hx

theorem keeps_ite {p : Prop} [Decidable p] {x y : Run α} (hx : Keeps allowed x P)
    (hy : Keeps allowed y P) : Keeps allowed (if p then x else y) P := by
  split
  · exact hx
  · exact hy

/-- What follows may depend on the state. -/
theorem keeps_get {next : World → Run α}
    (h : ∀ world, world.Within allowed → Keeps allowed (next world) P) :
    Keeps allowed (get >>= next) P :=
  fun world hworld => h world hworld world hworld

theorem keeps_modify {change : World → World}
    (h : ∀ world, world.Within allowed → (change world).Within allowed) :
    Keeps allowed (modify change) fun _ => True :=
  fun world hworld => ⟨h world hworld, trivial⟩

theorem keeps_ofScope {found : Except ScopeError α} (h : ∀ a, found = .ok a → P a) :
    Keeps allowed (ofScope found) P := by
  cases found with
  | ok a => exact keeps_pure (h a rfl)
  | error e => exact keeps_refuse _

theorem keeps_note {level : Int} {text : World → String} :
    Keeps allowed (note level text) fun _ => True :=
  keeps_modify fun _ hworld => hworld.withTranscript

/-! ### Variables and functions -/

theorem keeps_findVariable (hlocals : ∀ frame ∈ locals, frame.Within allowed) :
    Keeps allowed (findVariable locals name) fun slot => slot.value.Within allowed := by
  apply keeps_get
  intro world hworld
  apply keeps_ofScope
  intro slot hslot
  refine within_of_findVariable? (hworld.chain hlocals)
    (?_ : Chain.findVariable? _ name = some slot)
  unfold Chain.lookupVariable at hslot
  split at hslot
  next found hfound =>
    cases hslot
    exact hfound
  next => cases hslot

theorem keeps_findFunction (hlocals : ∀ frame ∈ locals, frame.Within allowed) {arity : Nat} :
    Keeps allowed (findFunction locals name arity) fun routine =>
      routine.Within allowed arity := by
  apply keeps_get
  intro world hworld
  apply keeps_ofScope
  intro routine hroutine
  refine within_of_findFunction? (hworld.chain hlocals)
    (?_ : Chain.findFunction? _ name arity = some routine)
  unfold Chain.lookupFunction at hroutine
  split at hroutine
  next found hfound =>
    cases hroutine
    exact hfound
  next => cases hroutine

theorem keeps_define (hlocals : ∀ frame ∈ locals, frame.Within allowed) {slot : Slot}
    (hslot : slot.value.Within allowed) :
    Keeps allowed (define locals name slot) fun locals =>
      ∀ frame ∈ locals, frame.Within allowed := by
  cases locals with
  | cons inner outer =>
    obtain ⟨hinner, houter⟩ := List.forall_mem_cons.mp hlocals
    refine Keeps.bind (keeps_ofScope fun frame => hinner.defineVariable hslot)
      fun frame hframe => ?_
    exact keeps_pure (List.forall_mem_cons.mpr ⟨hframe, houter⟩)
  | nil =>
    apply keeps_get
    intro world hworld
    refine Keeps.bind (keeps_ofScope fun top => hworld.top.defineVariable hslot) fun top htop => ?_
    exact fun _ _ => ⟨hworld.withTop htop, hlocals⟩

theorem keeps_assign (hlocals : ∀ frame ∈ locals, frame.Within allowed) {value : Value}
    (hvalue : value.Within allowed) :
    Keeps allowed (assign locals name value) fun locals =>
      ∀ frame ∈ locals, frame.Within allowed := by
  apply keeps_ite (keeps_pure (within_updateVariable hlocals hvalue))
  refine Keeps.bind (keeps_modify fun world hworld => ?_) fun _ _ => keeps_pure hlocals
  exact hworld.withTop (hworld.top.updateVariable hvalue)

theorem keeps_bindParameters (parameters : List String) :
    ∀ {arguments : List Value} {locals : DynamicChain},
      (∀ argument ∈ arguments, argument.Within allowed) →
      (∀ frame ∈ locals, frame.Within allowed) →
      Keeps allowed (bindParameters parameters arguments locals) fun locals =>
        ∀ frame ∈ locals, frame.Within allowed := by
  induction parameters with
  | nil => exact fun _ hlocals => keeps_pure hlocals
  | cons parameter parameters ih =>
    intro arguments locals harguments hlocals
    cases arguments with
    | nil => exact keeps_pure hlocals
    | cons argument arguments =>
      obtain ⟨hargument, harguments⟩ := List.forall_mem_cons.mp harguments
      exact (keeps_define hlocals hargument).bind fun locals hlocals => ih harguments hlocals

/-! ### Values and lists -/

theorem keeps_requireBoolean (value : Value) :
    Keeps allowed (requireBoolean value) fun _ => True := by
  unfold requireBoolean
  split
  · exact keeps_pure trivial
  · exact keeps_refuse _

theorem keeps_requireList (slot : Slot) : Keeps allowed (requireList name slot) fun _ => True := by
  unfold requireList
  split
  · exact keeps_pure trivial
  · exact keeps_refuse _

theorem keeps_requireOffset (handle : Nat) (value : Value) :
    Keeps allowed (requireOffset handle value) fun _ => True := by
  unfold requireOffset
  split
  · exact keeps_get fun _ _ => keeps_ite (keeps_pure trivial) (keeps_refuse _)
  · exact keeps_refuse _

theorem keeps_readItem (hclosed : Scalar.Closed allowed) (handle index : Nat) :
    Keeps allowed (readItem handle index) fun value => value.Within allowed := by
  apply keeps_get
  intro world hworld
  apply keeps_pure
  cases hitem : (world.items handle)[index]? with
  | none => exact hclosed.nil
  | some item => exact hworld.heap handle item (List.mem_of_getElem? hitem)

theorem keeps_writeItem (handle index : Nat) {value : Value} (hvalue : value.Within allowed) :
    Keeps allowed (writeItem handle index value) fun _ => True :=
  keeps_modify fun _ hworld => hworld.set hvalue

theorem keeps_allocate {items : List Value} (hitems : ∀ item ∈ items, item.Within allowed) :
    Keeps allowed (allocate items) fun value => value.Within allowed :=
  fun _ hworld => ⟨hworld.push hitems, trivial⟩

theorem keeps_applyToValues (hclosed : Scalar.Closed allowed) (symbol : String)
    {left right : Value} (hleft : left.Within allowed) (hright : right.Within allowed) :
    Keeps allowed (applyToValues symbol left right) fun value => value.Within allowed := by
  apply keeps_get
  intro world _
  have ha := hleft.datum world
  have hb := hright.datum world
  split
  next result hresult => exact keeps_pure (hclosed.apply ha hb hresult)
  next e _ => exact keeps_refuse e
  next hresult => exact keeps_throw (.overflow ⟨symbol, _, _, ha, hb, hresult⟩)

/-- An index that was required is in range. -/
theorem inRange_of_requireOffset {handle index : Nat} {offset : Value} {world after : World}
    (h : requireOffset handle offset world = .ok index after) :
    after = world ∧ handle < world.heap.size ∧ index < (world.items handle).length := by
  cases offset with
  | list _ => cases h
  | scalar value =>
    cases value with
    | integer n =>
      rw [requireOffset, Scoped.get_bind_apply] at h
      split at h
      next hrange =>
        cases h
        have hindex : n.toNat < (world.items handle).length := by omega
        refine ⟨rfl, ?_, hindex⟩
        -- a handle without a list has no items
        by_contra hhandle
        have hnone : world.heap[handle]? = none := Array.getElem?_eq_none (Nat.not_lt.mp hhandle)
        simp [World.items, hnone] at hindex
      next => cases h
    | _ => cases h

end Run

end BlockScript

import BlockScript.Node.Json
import BlockScript.Proofs.Numeral
/-!
# Trees and their JSON forms

A tree can be read back from its JSON form, without the annotations, as long as its decimals are in
the range that decimals have. Whatever is read from JSON is such a tree, so that writing it and
reading it once more changes nothing.

## Main definitions

* `Node.literals` — the literals of a tree
* `Scalar.InRange`, `Node.InRange` — decimals that are in range
* `Node.IsFresh` — a tree as it is read: in range and without annotations

## Main results

* `Scalar.ofJson_toJson`, `Node.ofJson_toJson` — what is written can be read
* `Node.isFresh_of_ofJson` — what has been read is fresh
* `Node.json_round_trip` — the three laws of the JSON form
-/

namespace BlockScript

/-! ### Results and errors -/

section

variable {α β ε : Type}

theorem ok_bind (a : α) (next : α → Except ε β) : (Except.ok a >>= next) = next a :=
  rfl

theorem map_ok (f : α → β) (a : α) : f <$> (Except.ok a : Except ε α) = .ok (f a) :=
  rfl

theorem pure_eq_ok (a : α) : (pure a : Except ε α) = .ok a :=
  rfl

theorem bind_eq_ok_iff {x : Except ε α} {next : α → Except ε β} {b : β} :
    x >>= next = .ok b ↔ ∃ a, x = .ok a ∧ next a = .ok b := by
  cases x <;> simp [bind, Except.bind]

theorem map_eq_ok_iff {x : Except ε α} {f : α → β} {b : β} :
    f <$> x = .ok b ↔ ∃ a, x = .ok a ∧ f a = b := by
  cases x <;> simp [Functor.map, Except.map]

/-- What holds of all results of a function holds of the results over a list. -/
theorem forall_mem_of_mapM_eq_ok {p : β → Prop} {f : α → Except ε β} {xs : List α} {ys : List β}
    (hf : ∀ x y, f x = .ok y → p y) (h : xs.mapM f = .ok ys) : ∀ y ∈ ys, p y := by
  induction xs generalizing ys with
  | nil =>
    cases h
    simp
  | cons x rest ih =>
    simp only [List.mapM_cons, bind_eq_ok_iff, pure_eq_ok, Except.ok.injEq] at h
    obtain ⟨y, hy, ys, hys, rfl⟩ := h
    exact List.forall_mem_cons.mpr ⟨hf x y hy, ih hys⟩

end

/-! ### Scalars -/

namespace Scalar

/-- Whether the exponent of a decimal is in range; other scalars have none. -/
def InRange : Scalar → Prop
  | decimal value => value.InRange
  | _ => True

theorem integerOfJson_toString (value : Int) :
    integerOfJson (.string (toString value)) = .ok value := by
  simp only [integerOfJson, integerOfText?_toString]

theorem decimalOfJson_text {value : Decimal} (h : value.InRange) :
    decimalOfJson (.string value.text) = .ok value := by
  simp [decimalOfJson, Decimal.ofText?_text, checkedDecimal, h]

theorem ofJson_integer (value : Json) :
    ofJson (.object [("kind", .string "Integer"), ("value", value)]) =
      integer <$> integerOfJson value :=
  rfl

theorem ofJson_decimal (value : Json) :
    ofJson (.object [("kind", .string "Decimal"), ("value", value)]) =
      decimal <$> decimalOfJson value :=
  rfl

instance : DecidablePred InRange
  | decimal value => inferInstanceAs (Decidable value.InRange)
  | nil | boolean _ | integer _ | character _ | string _ => inferInstanceAs (Decidable True)

/-- A scalar can be read back, with its kind. -/
theorem ofJson_toJson {scalar : Scalar} (h : scalar.InRange) : ofJson scalar.toJson = .ok scalar := by
  cases scalar with
  | nil => rfl
  | boolean value => rfl
  | integer value =>
    have hread := ofJson_integer (.string (toString value))
    rw [integerOfJson_toString] at hread
    exact hread
  | decimal value =>
    have hread := ofJson_decimal (.string value.text)
    rw [decimalOfJson_text h] at hread
    exact hread
  | character value => rfl
  | string value => rfl

theorem inRange_of_exponent_zero {value : Decimal} (h : value.exponent = 0) : value.InRange := by
  rw [Decimal.InRange, h]
  exact ⟨by decide, .inl (Int.le_refl 0)⟩

theorem leastPower_le_of_ofFraction? {n d : Nat} {x : Double}
    (h : Double.ofFraction? n d = some x) : Double.leastPower ≤ x.power := by
  have hlow := Int.le_max_left Double.leastPower ((n.log2 : Int) - d.log2 - Double.precision)
  simp only [Double.ofFraction?, Option.ite_none_right_eq_some, Option.some.injEq] at h
  generalize max Double.leastPower ((n.log2 : Int) - d.log2 - Double.precision) = low at h hlow
  obtain ⟨-, rfl⟩ := h
  rw [apply_ite Double.power]
  dsimp only
  split <;> split <;> omega

theorem leastPower_le_of_ofDecimal? {a : Decimal} {x : Double} (h : Double.ofDecimal? a = some x) :
    Double.leastPower ≤ x.power := by
  unfold Double.ofDecimal? at h
  split at h
  next =>
    cases h
    exact Int.le_refl _
  split at h
  next => cases h
  next => exact leastPower_le_of_ofFraction? h

theorem log2_powerOfTwo_div_le (k n : Nat) : (powerOfTwo k / n).log2 ≤ k := by
  by_cases hzero : powerOfTwo k / n = 0
  · simp [hzero]
  · have hdiv : powerOfTwo k / n < 2 ^ (k + 1) := calc
      powerOfTwo k / n ≤ powerOfTwo k := Nat.div_le_self _ _
      _ = 2 ^ k := rfl
      _ < 2 ^ (k + 1) := Nat.pow_lt_pow_right (by decide) (by omega)
    exact Nat.le_of_lt_succ ((Nat.log2_lt hzero).mpr hdiv)

/-- A number in double precision has no more digits behind the point than the least power of two. -/
theorem inRange_toDecimal {x : Double} (h : Double.leastPower ≤ x.power) (negative : Bool) :
    (x.toDecimal negative).InRange := by
  have hpower : Double.leastPower = -1074 := rfl
  have hexponent : Decimal.leastExponent = -1999999999999999997 := rfl
  have htwos := log2_powerOfTwo_div_le (-x.power).toNat
    ((x.significand * powerOfTwo x.power.toNat).gcd (powerOfTwo (-x.power).toNat))
  constructor
  · simp only [Double.toDecimal]
    omega
  · left
    simp only [Double.toDecimal]
    omega

theorem inRange_of_checkedDecimal {shown : String} {value result : Decimal}
    (h : checkedDecimal shown value = .ok result) : result.InRange := by
  unfold checkedDecimal at h
  split at h
  next hrange =>
    cases h
    exact hrange
  next => cases h

theorem inRange_of_decimalOfJson {json : Json} {value : Decimal}
    (h : decimalOfJson json = .ok value) : value.InRange := by
  unfold decimalOfJson at h
  split at h
  -- the text of a decimal
  next =>
    split at h
    next => exact inRange_of_checkedDecimal h
    next => cases h
  -- a number in double precision
  next =>
    split at h
    next hx =>
      cases h
      exact inRange_toDecimal (leastPower_le_of_ofDecimal? hx) _
    next => cases h
  -- the parts of a decimal
  next =>
    split at h
    next => exact inRange_of_checkedDecimal h
    next => cases h
  -- an integer
  next =>
    split at h
    next =>
      cases h
      exact inRange_of_exponent_zero rfl
    next => cases h

/-- Decimals that have been read are in range. -/
theorem inRange_of_ofJson {json : Json} {scalar : Scalar} (h : ofJson json = .ok scalar) :
    scalar.InRange := by
  unfold ofJson at h
  rw [bind_eq_ok_iff] at h
  obtain ⟨kind, -, h⟩ := h
  cases scalar with
  | decimal value =>
    split at h <;>
      simp only [bind_eq_ok_iff, pure_eq_ok, Except.ok.injEq, reduceCtorEq, decimal.injEq, and_false,
        exists_false, exists_eq_right] at h
    next =>
      obtain ⟨_, -, hvalue⟩ := h
      exact inRange_of_decimalOfJson hvalue
    next =>
      -- a string may be an integer or a truth value, but no decimal
      obtain ⟨json, -, hvalue⟩ := h
      cases json <;> cases hvalue
  | _ => trivial

end Scalar

namespace Node

mutual

/-- The literals of a tree. -/
def literals : Node → List Scalar
  | null => []
  | literal value _ => [value]
  | group inner _ => inner.literals
  | binary _ left right _ => left.literals ++ right.literals
  | access _ offset _ _ => offset.literals
  | call _ arguments _ _ => literalsOfAll arguments
  | listLiteral values _ => literalsOfAll values
  | discard expression => expression.literals
  | declaration _ _ value _ => value.literals
  | assignment receiver value => receiver.literals ++ value.literals
  | branch condition thenBody elseBody =>
    condition.literals ++ literalsOfAll thenBody ++ literalsOfAll elseBody
  | case value body => value.literals ++ literalsOfAll body
  | switch condition cases => condition.literals ++ literalsOfAll cases
  | loop condition body => condition.literals ++ literalsOfAll body
  | ret value => value.literals
  | global _ _ _ value _ _ => value.literals
  | function _ _ _ _ body _ => literalsOfAll body
  | program globals functions => literalsOfAll globals ++ literalsOfAll functions

/-- The literals of several trees. -/
def literalsOfAll : List Node → List Scalar
  | [] => []
  | node :: rest => node.literals ++ literalsOfAll rest

end

/-- Whether the decimals of a tree are in range. -/
def InRange (tree : Node) : Prop :=
  ∀ scalar ∈ tree.literals, scalar.InRange

instance : DecidablePred InRange := fun tree =>
  inferInstanceAs (Decidable (∀ scalar ∈ tree.literals, scalar.InRange))

theorem mapM_textOfJson (member : String) (names : List String) :
    (names.map Json.string).mapM (textOfJson member) = .ok names := by
  induction names with
  | nil => rfl
  | cons name rest ih => simp [ih, textOfJson, bind, Except.bind, pure, Except.pure]

theorem nameOfJson_nameToJson (member : String) (name : Option String) :
    nameOfJson member (nameToJson name) = .ok name := by
  cases name <;> rfl

theorem mapM_nameOfJson (member : String) (names : List (Option String)) :
    (names.map nameToJson).mapM (nameOfJson member) = .ok names := by
  induction names with
  | nil => rfl
  | cons name rest ih => simp [ih, nameOfJson_nameToJson, bind, Except.bind, pure, Except.pure]

section

attribute [local simp] toJson objectOf ofJsonBounded erase optionalMember requiredSequence
  sequenceOf Json.member? Json.lastMember? Json.required Json.requiredText Json.sequence?
  Json.truth NodeKind.ofName?_name List.lookup_cons nameOfJson_nameToJson ok_bind map_ok pure_eq_ok

mutual

/-- A tree can be read back with any sufficient bound. -/
theorem ofJsonBounded_toJson (tree : Node) (h : tree.InRange) (bound : Nat)
    (hbound : tree.toJson.nesting ≤ bound) : ofJsonBounded bound tree.toJson = .ok tree.erase := by
  cases bound with
  | zero =>
    cases tree with
    | null => rfl
    | _ => simp [Json.nesting] at hbound
  | succ bound =>
    cases tree <;> simp only [InRange, literals, List.forall_mem_append, toJson, objectOf,
      Json.nesting, Json.nestingMembers, Nat.add_le_add_iff_right] at h hbound
    case null => rfl
    case literal value type =>
      simp [Scalar.ofJson_toJson (h value List.mem_cons_self)]
    case group inner type =>
      have hinner := ofJsonBounded_toJson inner h bound (by omega)
      simp [hinner]
    case binary symbol left right type =>
      have hleft := ofJsonBounded_toJson left h.1 bound (by omega)
      have hright := ofJsonBounded_toJson right h.2 bound (by omega)
      simp [hleft, hright]
    case access name offset type binding =>
      have hoffset := ofJsonBounded_toJson offset h bound (by omega)
      simp [hoffset]
    case call name arguments type callee =>
      have harguments := mapM_ofJsonBounded arguments h bound (by omega)
      simp [harguments]
    case listLiteral values type =>
      have hvalues := mapM_ofJsonBounded values h bound (by omega)
      simp [hvalues]
    case discard expression =>
      have hexpression := ofJsonBounded_toJson expression h bound (by omega)
      simp [hexpression]
    case declaration name typeName value binding =>
      have hvalue := ofJsonBounded_toJson value h bound (by omega)
      simp [hvalue]
    case assignment receiver value =>
      have hreceiver := ofJsonBounded_toJson receiver h.1 bound (by omega)
      have hvalue := ofJsonBounded_toJson value h.2 bound (by omega)
      simp [hreceiver, hvalue]
    case branch condition thenBody elseBody =>
      have hcondition := ofJsonBounded_toJson condition h.1.1 bound (by omega)
      have hthen := mapM_ofJsonBounded thenBody h.1.2 bound (by omega)
      have helse := mapM_ofJsonBounded elseBody h.2 bound (by omega)
      simp [hcondition, hthen, helse]
    case «case» value body =>
      have hvalue := ofJsonBounded_toJson value h.1 bound (by omega)
      have hbody := mapM_ofJsonBounded body h.2 bound (by omega)
      simp [hvalue, hbody]
    case switch condition cases =>
      have hcondition := ofJsonBounded_toJson condition h.1 bound (by omega)
      have hcases := mapM_ofJsonBounded cases h.2 bound (by omega)
      simp [hcondition, hcases]
    case loop condition body =>
      have hcondition := ofJsonBounded_toJson condition h.1 bound (by omega)
      have hbody := mapM_ofJsonBounded body h.2 bound (by omega)
      simp [hcondition, hbody]
    case ret value =>
      have hvalue := ofJsonBounded_toJson value h bound (by omega)
      simp [hvalue]
    case global name mutable typeName value isList binding =>
      have hvalue := ofJsonBounded_toJson value h bound (by omega)
      simp [hvalue]
    case function name parameters parameterTypes resultType body signature =>
      have hbody := mapM_ofJsonBounded body h bound (by omega)
      simp [-List.mapM_map, mapM_textOfJson, mapM_nameOfJson, hbody]
    case program globals functions =>
      have hglobals := mapM_ofJsonBounded globals h.1 bound (by omega)
      have hfunctions := mapM_ofJsonBounded functions h.2 bound (by omega)
      simp [hglobals, hfunctions]

theorem mapM_ofJsonBounded (trees : List Node) (h : ∀ scalar ∈ literalsOfAll trees, scalar.InRange)
    (bound : Nat) (hbound : Json.nestingItems (allToJson trees) ≤ bound) :
    (allToJson trees).mapM (ofJsonBounded bound) = .ok (eraseAll trees) := by
  cases trees with
  | nil => rfl
  | cons tree rest =>
    simp only [literalsOfAll, List.forall_mem_append, allToJson, Json.nestingItems] at h hbound
    have htree := ofJsonBounded_toJson tree h.1 bound (by omega)
    have hrest := mapM_ofJsonBounded rest h.2 bound (by omega)
    simp [allToJson, eraseAll, htree, hrest]

end

end

theorem ofJson_toJson {tree : Node} (h : tree.InRange) : ofJson tree.toJson = .ok tree.erase :=
  ofJsonBounded_toJson tree h _ (Nat.le_refl _)

/-! ### What is read -/

/-- A tree as it is read: its decimals are in range, and it has no annotations. -/
def IsFresh (tree : Node) : Prop :=
  tree.InRange ∧ tree.erase = tree

/-- Several trees as they are read. -/
def AllFresh (trees : List Node) : Prop :=
  (∀ scalar ∈ literalsOfAll trees, scalar.InRange) ∧ eraseAll trees = trees

theorem allFresh_iff {trees : List Node} : AllFresh trees ↔ ∀ tree ∈ trees, tree.IsFresh := by
  induction trees with
  | nil => simp [AllFresh, literalsOfAll, eraseAll]
  | cons tree rest ih =>
    rw [List.forall_mem_cons, ← ih]
    simp only [AllFresh, IsFresh, InRange, literalsOfAll, eraseAll, List.forall_mem_append,
      List.cons.injEq, and_and_and_comm]

@[simp]
theorem allFresh_nil : AllFresh [] := by
  simp [allFresh_iff]

@[simp]
theorem allFresh_cons {tree : Node} {rest : List Node} :
    AllFresh (tree :: rest) ↔ tree.IsFresh ∧ AllFresh rest := by
  simp only [allFresh_iff, List.forall_mem_cons]

@[simp]
theorem allFresh_append {trees others : List Node} :
    AllFresh (trees ++ others) ↔ AllFresh trees ∧ AllFresh others := by
  simp only [allFresh_iff, List.forall_mem_append]

section

attribute [local simp] IsFresh AllFresh InRange literals erase and_and_and_comm or_imp forall_and

@[simp]
theorem isFresh_null : null.IsFresh := by
  simp

@[simp]
theorem isFresh_literal {value : Scalar} :
    (literal value none).IsFresh ↔ value.InRange := by
  simp

@[simp]
theorem isFresh_group {inner : Node} :
    (group inner none).IsFresh ↔ inner.IsFresh := by
  simp

@[simp]
theorem isFresh_binary {symbol : String} {left right : Node} :
    (binary symbol left right none).IsFresh ↔ left.IsFresh ∧ right.IsFresh := by
  simp

@[simp]
theorem isFresh_access {name : String} {offset : Node} :
    (access name offset none none).IsFresh ↔ offset.IsFresh := by
  simp

@[simp]
theorem isFresh_call {name : String} {arguments : List Node} :
    (call name arguments none none).IsFresh ↔ AllFresh arguments := by
  simp

@[simp]
theorem isFresh_listLiteral {values : List Node} :
    (listLiteral values none).IsFresh ↔ AllFresh values := by
  simp

@[simp]
theorem isFresh_discard {expression : Node} :
    (discard expression).IsFresh ↔ expression.IsFresh := by
  simp

@[simp]
theorem isFresh_declaration {name : String} {typeName : Option String} {value : Node} :
    (declaration name typeName value none).IsFresh ↔ value.IsFresh := by
  simp

@[simp]
theorem isFresh_assignment {receiver value : Node} :
    (assignment receiver value).IsFresh ↔ receiver.IsFresh ∧ value.IsFresh := by
  simp

@[simp]
theorem isFresh_branch {condition : Node} {thenBody elseBody : List Node} :
    (branch condition thenBody elseBody).IsFresh ↔ condition.IsFresh ∧ AllFresh thenBody ∧ AllFresh elseBody := by
  simp

@[simp]
theorem isFresh_case {value : Node} {body : List Node} :
    (case value body).IsFresh ↔ value.IsFresh ∧ AllFresh body := by
  simp

@[simp]
theorem isFresh_switch {condition : Node} {cases : List Node} :
    (switch condition cases).IsFresh ↔ condition.IsFresh ∧ AllFresh cases := by
  simp

@[simp]
theorem isFresh_loop {condition : Node} {body : List Node} :
    (loop condition body).IsFresh ↔ condition.IsFresh ∧ AllFresh body := by
  simp

@[simp]
theorem isFresh_ret {value : Node} :
    (ret value).IsFresh ↔ value.IsFresh := by
  simp

@[simp]
theorem isFresh_global {name : String} {typeName : Option String} {mutable isList : Bool} {value : Node} :
    (global name mutable typeName value isList none).IsFresh ↔ value.IsFresh := by
  simp

@[simp]
theorem isFresh_function {name : String} {parameters : List String} {parameterTypes : List (Option String)}
    {resultType : Option String} {body : List Node} :
    (function name parameters parameterTypes resultType body none).IsFresh ↔ AllFresh body := by
  simp

@[simp]
theorem isFresh_program {globals functions : List Node} :
    (program globals functions).IsFresh ↔ AllFresh globals ∧ AllFresh functions := by
  simp

end

theorem isFresh_of_ofJsonBounded {bound : Nat} {json : Json} {tree : Node}
    (h : ofJsonBounded bound json = .ok tree) : tree.IsFresh := by
  induction bound generalizing json tree with
  | zero =>
    cases json <;> simp [ofJsonBounded] at h
    subst h
    simp
  | succ bound ih =>
    have ihs : ∀ {items : List Json} {trees},
        items.mapM (ofJsonBounded bound) = .ok trees → AllFresh trees :=
      fun h => allFresh_iff.mpr (forall_mem_of_mapM_eq_ok (fun _ _ => ih) h)
    cases json <;> simp only [ofJsonBounded, reduceCtorEq, Except.ok.injEq] at h
    case null =>
      subst h
      simp
    case object members =>
      split at h
      next => cases h
      all_goals simp only [bind_eq_ok_iff, pure_eq_ok, Except.ok.injEq] at h
      -- the kinds in the order in which the reader looks for them
      next => -- a program
        obtain ⟨globals, ⟨_, _, hglobals⟩, functions, ⟨_, _, hfunctions⟩, rfl⟩ := h
        exact isFresh_program.mpr ⟨ihs hglobals, ihs hfunctions⟩
      next => -- a global
        obtain ⟨_, _, _, _, _, _, value, hvalue, rfl⟩ := h
        exact isFresh_global.mpr (ih hvalue)
      next => -- a function
        obtain ⟨_, _, _, _, _, _, _, _, _, _, _, _, body, ⟨_, _, hbody⟩, rfl⟩ := h
        exact isFresh_function.mpr (ihs hbody)
      next => -- a discarded expression
        obtain ⟨expression, ⟨_, _, hexpression⟩, rfl⟩ := h
        exact isFresh_discard.mpr (ih hexpression)
      next => -- a declaration
        obtain ⟨_, _, _, _, value, hvalue, rfl⟩ := h
        exact isFresh_declaration.mpr (ih hvalue)
      next => -- an assignment
        obtain ⟨receiver, ⟨_, _, hreceiver⟩, value, ⟨_, _, hvalue⟩, rfl⟩ := h
        exact isFresh_assignment.mpr ⟨ih hreceiver, ih hvalue⟩
      next => -- a branch
        obtain ⟨condition, ⟨_, _, hcondition⟩, thenBody, ⟨_, _, hthen⟩, h⟩ := h
        split at h
        next =>
          simp only [bind_eq_ok_iff, Except.ok.injEq] at h
          obtain ⟨elseBody, ⟨_, _, helse⟩, rfl⟩ := h
          exact isFresh_branch.mpr ⟨ih hcondition, ihs hthen, ihs helse⟩
        next =>
          cases h
          exact isFresh_branch.mpr ⟨ih hcondition, ihs hthen, allFresh_nil⟩
      next => -- a switch
        obtain ⟨condition, ⟨_, _, hcondition⟩, cases, ⟨_, _, hcases⟩, rfl⟩ := h
        exact isFresh_switch.mpr ⟨ih hcondition, ihs hcases⟩
      next => -- a case
        obtain ⟨value, hvalue, body, ⟨_, _, hbody⟩, rfl⟩ := h
        exact isFresh_case.mpr ⟨ih hvalue, ihs hbody⟩
      next => -- a loop
        obtain ⟨condition, ⟨_, _, hcondition⟩, body, ⟨_, _, hbody⟩, rfl⟩ := h
        exact isFresh_loop.mpr ⟨ih hcondition, ihs hbody⟩
      next => -- the end of a function
        obtain ⟨value, ⟨_, _, hvalue⟩, rfl⟩ := h
        exact isFresh_ret.mpr (ih hvalue)
      next => -- a literal
        obtain ⟨_, _, value, hvalue, rfl⟩ := h
        exact isFresh_literal.mpr (Scalar.inRange_of_ofJson hvalue)
      next => -- a group
        obtain ⟨inner, ⟨_, _, hinner⟩, rfl⟩ := h
        exact isFresh_group.mpr (ih hinner)
      next => -- a binary operation
        obtain ⟨_, _, left, ⟨_, _, hleft⟩, right, ⟨_, _, hright⟩, rfl⟩ := h
        exact isFresh_binary.mpr ⟨ih hleft, ih hright⟩
      next => -- an access
        obtain ⟨_, _, offset, hoffset, rfl⟩ := h
        exact isFresh_access.mpr (ih hoffset)
      next => -- a call
        obtain ⟨_, _, arguments, ⟨_, _, harguments⟩, rfl⟩ := h
        exact isFresh_call.mpr (ihs harguments)
      next => -- a list
        obtain ⟨values, ⟨_, _, hvalues⟩, rfl⟩ := h
        exact isFresh_listLiteral.mpr (ihs hvalues)

theorem isFresh_of_ofJson {json : Json} {tree : Node} (h : ofJson json = .ok tree) : tree.IsFresh :=
  isFresh_of_ofJsonBounded h

/-- The JSON form of trees. A decimal can be read back from its text as it is, with sign,
coefficient and exponent. A tree whose decimals have exponents that decimals can have is read back
from its JSON form, and only annotations are lost. What is read from any JSON value is such a tree,
and writing it and reading it again changes nothing. -/
theorem json_round_trip :
    (∀ value : Decimal, Decimal.ofText? value.text = some value) ∧
    (∀ tree : Node, tree.InRange → ofJson tree.toJson = .ok tree.erase) ∧
    (∀ json tree, ofJson json = .ok tree → tree.InRange ∧ tree.erase = tree) ∧
    ∀ json written, toJson <$> ofJson json = .ok written →
      toJson <$> ofJson written = .ok written := by
  refine ⟨Decimal.ofText?_text, fun _ => ofJson_toJson, fun _ _ => isFresh_of_ofJson, ?_⟩
  intro json written h
  obtain ⟨tree, htree, rfl⟩ := map_eq_ok_iff.mp h
  obtain ⟨hrange, hplain⟩ := isFresh_of_ofJson htree
  rw [ofJson_toJson hrange, hplain]
  rfl

/-- An annotated tree with literals of all kinds, some of them with the same text, and with
children that are absent. -/
def mixedTree : Node :=
  .function "f" ["x", "x"] [none, some "no type"] none
    [.declaration "true" none .null (some ⟨0, "true", some .any, true, false⟩),
      .ret (.listLiteral
        [.literal .nil (some .nil), .literal (.boolean true) none, .literal (.integer 1) none,
          .literal (.string "1") none, .literal (.character "1") none,
          .literal (.decimal ⟨false, 100, -2⟩) none, .literal (.decimal ⟨true, 0, 3⟩) none,
          .access "x" .null (some .integer) none] none)]
    (some ⟨"f", "f", [.integer], .any⟩)

theorem json_round_trip_mixedTree :
    mixedTree.InRange ∧ ofJson mixedTree.toJson = .ok mixedTree.erase ∧
      toJson <$> ofJson mixedTree.toJson = .ok mixedTree.erase.toJson ∧
      toJson <$> ofJson mixedTree.erase.toJson = .ok mixedTree.erase.toJson := by
  have hrange : mixedTree.InRange := by decide
  have hread := json_round_trip.2.1 mixedTree hrange
  have hwritten : toJson <$> ofJson mixedTree.toJson = .ok mixedTree.erase.toJson := by
    rw [hread]
    rfl
  exact ⟨hrange, hread, hwritten, json_round_trip.2.2.2 _ _ hwritten⟩

end Node

end BlockScript

import BlockScript.Numeral.Notation
/-!
# Numerals can be read back

What a numeral denotes can be told from its pieces: a sign, digits, a point with digits behind it,
and a power of ten. Numbers are written with such pieces, so the sign, the coefficient and the
exponent of a decimal can all be read back from its text, whichever of the two notations it has.

## Main definitions

* `IsSign`, `AreDigits`, `Decimal.pointed`, `Decimal.IsPower` — the pieces of numerals

## Main results

* `integerOfText?_eq_some`, `Decimal.ofText?_eq_some` — what numerals denote
* `integerOfText?_toString`, `Decimal.ofText?_text` — written numbers can be read back
-/

namespace BlockScript

open Text

/-! ### Pieces of numerals -/

theorem toNat_of_isDigit {c : Char} (h : c.isDigit = true) :
    0x30 ≤ c.toNat ∧ c.toNat < 0x30 + 10 := by
  simp only [Char.isDigit, ge_iff_le, Bool.and_eq_true, decide_eq_true_eq] at h
  have hlow := UInt32.le_iff_toNat_le.mp h.1
  have hhigh := UInt32.le_iff_toNat_le.mp h.2
  exact ⟨hlow, Nat.lt_succ_of_le hhigh⟩

theorem digitValue?_of_isDigit {c : Char} (h : c.isDigit = true) :
    digitValue? c = some (c.toNat - 0x30) := by
  simp [digitValue?, decimalZeros, toNat_of_isDigit h]

/-- A sign or a digit. -/
def IsNumeric (c : Char) : Prop :=
  c = '+' ∨ c = '-' ∨ c.isDigit = true

theorem isAround_of_isNumeric {c : Char} (h : IsNumeric c) : Decimal.isAround c = false := by
  obtain rfl | rfl | hdigit := h
  · decide
  · decide
  · have hbounds := toNat_of_isDigit hdigit
    simp only [Decimal.isAround, isBlank, isSeparator, Bool.or_eq_false_iff, Bool.and_eq_false_iff,
      decide_eq_false_iff_not, beq_eq_false_iff_ne]
    omega

theorem isBlank_of_isNumeric {c : Char} (h : IsNumeric c) : isBlank c = false :=
  (Bool.or_eq_false_iff.mp (isAround_of_isNumeric h)).1

/-- Nothing is trimmed off a text whose first and last characters stay. -/
theorem trim_eq_self {inClass : Char → Bool} {cs : List Char}
    (hfirst : ∀ c ∈ cs.head?, inClass c = false) (hlast : ∀ c ∈ cs.getLast?, inClass c = false) :
    trim inClass cs = cs := by
  have hkeep : ∀ cs : List Char, (∀ c ∈ cs.head?, inClass c = false) →
      cs.dropWhile inClass = cs := by
    intro cs h
    cases cs with
    | nil => rfl
    | cons c rest => rw [List.dropWhile_cons_of_neg (by simp [h c rfl])]
  rw [trim, hkeep cs hfirst, hkeep cs.reverse (by simpa using hlast), List.reverse_reverse]

/-- The sign of a numeral, which may be missing. -/
def IsSign (cs : List Char) : Prop :=
  cs = [] ∨ cs = ['+'] ∨ cs = ['-']

/-- Digits, at least one. -/
def AreDigits (cs : List Char) : Prop :=
  cs ≠ [] ∧ ∀ c ∈ cs, c.isDigit = true

theorem areDigits_toDigits (n : Nat) : AreDigits (Nat.toDigits 10 n) :=
  ⟨Nat.toDigits_ne_nil, fun _ hc => Nat.isDigit_of_mem_toDigits (by decide) (by decide) hc⟩

theorem ne_of_isDigit {c d : Char} (hc : c.isDigit = true) (hd : d.isDigit = false) : c ≠ d := by
  rintro rfl
  rw [hc] at hd
  cases hd

theorem groupedDigits_of_isDigit {digits : List Char} (h : ∀ c ∈ digits, c.isDigit = true) :
    ∀ (value : Nat) (afterDigit : Bool), (afterDigit = true ∨ digits ≠ []) →
      groupedDigits value afterDigit digits = some (Nat.ofDigitChars 10 digits value) := by
  induction digits with
  | nil =>
    rintro value afterDigit (rfl | hne)
    · rfl
    · exact absurd rfl hne
  | cons c rest ih =>
    intro value afterDigit _
    have hdigit := h c List.mem_cons_self
    -- scores between digits are allowed, but these are digits only
    rw [groupedDigits, if_neg (ne_of_isDigit hdigit (by decide)), digitValue?_of_isDigit hdigit]
    exact ih (fun c hc => h c (List.mem_cons_of_mem _ hc)) _ _ (.inl rfl)

theorem takeDigits_append {digits : List Char} (h : ∀ c ∈ digits, c.isDigit = true)
    {rest : List Char} (hrest : takeDigits rest = ([], rest)) :
    takeDigits (digits ++ rest) = (digits.map fun c => c.toNat - 0x30, rest) := by
  induction digits with
  | nil => exact hrest
  | cons c digits ih =>
    have htake := ih fun c hc => h c (List.mem_cons_of_mem _ hc)
    rw [List.cons_append, takeDigits, digitValue?_of_isDigit (h c List.mem_cons_self), htake]
    rfl

theorem ofDigits_map (digits : List Char) :
    ofDigits (digits.map fun c => c.toNat - 0x30) = Nat.ofDigitChars 10 digits 0 := by
  rw [ofDigits, List.foldl_map]
  rfl

theorem takeSign_append {sign digits : List Char} (hsign : IsSign sign)
    (hdigits : AreDigits digits) (rest : List Char) :
    takeSign (sign ++ (digits ++ rest)) = (decide (sign = ['-']), digits ++ rest) := by
  -- without a sign the first digit must not be taken for one
  obtain ⟨c, digits, rfl⟩ := List.exists_cons_of_ne_nil hdigits.1
  have hdigit := hdigits.2 c List.mem_cons_self
  obtain rfl | rfl | rfl := hsign
  · rw [List.nil_append, List.cons_append]
    unfold takeSign
    split
    next heq => exact absurd (List.cons.inj heq).1 (ne_of_isDigit hdigit (by decide))
    next heq => exact absurd (List.cons.inj heq).1 (ne_of_isDigit hdigit (by decide))
    next => rfl
  · rfl
  · rfl

/-- Nothing is trimmed off a numeral: it begins with a sign or a digit and ends with a digit. -/
theorem trim_numeral {inClass : Char → Bool} (hclass : ∀ {c}, IsNumeric c → inClass c = false)
    {sign whole digits : List Char} (hsign : IsSign sign) (hwhole : AreDigits whole)
    (hdigits : AreDigits digits) {middle : List Char} {cs : List Char}
    (hcs : cs = sign ++ (whole ++ middle)) (hmiddle : ∃ before, cs = before ++ digits) :
    trim inClass cs = cs := by
  refine trim_eq_self ?_ ?_
  · obtain ⟨c, others, rfl⟩ := List.exists_cons_of_ne_nil hwhole.1
    have hc := hwhole.2 c List.mem_cons_self
    subst hcs
    obtain rfl | rfl | rfl := hsign
    · simpa using hclass (.inr (.inr hc))
    · simpa using hclass (.inl rfl)
    · simpa using hclass (.inr (.inl rfl))
  · obtain ⟨before, rfl⟩ := hmiddle
    intro c hc
    obtain ⟨last, hlast⟩ : ∃ last, digits.getLast? = some last :=
      ⟨_, List.getLast?_eq_some_getLast hdigits.1⟩
    rw [List.getLast?_append, hlast] at hc
    cases hc
    exact hclass (.inr (.inr (hdigits.2 c (List.mem_of_getLast? hlast))))

/-! ### Integers -/

/-- The number that a sign and digits denote. -/
theorem integerOfText?_eq_some {text : String} {sign digits : List Char}
    (htext : text.toList = sign ++ digits) (hsign : IsSign sign) (hdigits : AreDigits digits) :
    integerOfText? text = some
      (if sign = ['-'] then -(Nat.ofDigitChars 10 digits 0 : Int)
        else Nat.ofDigitChars 10 digits 0) := by
  -- trimming, sign and digits are gone through in the order in which the value is computed
  have htrim : trim isBlank text.toList = text.toList :=
    trim_numeral isBlank_of_isNumeric hsign hdigits hdigits (by rw [htext, List.append_nil])
      ⟨sign, htext⟩
  have htake := takeSign_append hsign hdigits []
  have hgrouped := groupedDigits_of_isDigit hdigits.2 0 false (.inr hdigits.1)
  rw [htext] at htrim
  rw [List.append_nil] at htake
  simp only [integerOfText?, htext, htrim, htake, hgrouped, decide_eq_true_eq]
  rfl

/-- The text of an integer is made up of its digits, with a sign if it is negative. -/
theorem toList_toString (n : Int) :
    (toString n).toList = (if n < 0 then ['-'] else []) ++ Nat.toDigits 10 n.natAbs := by
  rw [Int.toString_eq_repr]
  cases n with
  | ofNat m => simp [Int.repr]
  | negSucc m => simp [Int.repr, Int.negSucc_lt_zero]

theorem isSign_of_lt_zero (n : Int) : IsSign (if n < 0 then ['-'] else []) := by
  split
  · exact .inr (.inr rfl)
  · exact .inl rfl

/-- An integer can be read back from its text. -/
theorem integerOfText?_toString (n : Int) : integerOfText? (toString n) = some n := by
  rw [integerOfText?_eq_some (toList_toString n) (isSign_of_lt_zero n) (areDigits_toDigits _),
    Nat.ofDigitChars_ten_toDigits]
  by_cases hneg : n < 0
  · simp only [if_pos hneg, if_true]
    rw [← Int.eq_neg_natAbs_of_nonpos (Int.le_of_lt hneg)]
  · rw [if_neg hneg, if_neg (by simp), Int.natAbs_of_nonneg (Int.not_lt.mp hneg)]

/-! ### Decimals -/

namespace Decimal

/-- Digits behind a point, or nothing if there are none. -/
def pointed (fraction : List Char) : List Char :=
  if fraction = [] then [] else '.' :: fraction

/-- The part of a numeral that names a power of ten, which may be missing. -/
inductive IsPower : List Char → Int → Prop
  | none : IsPower [] 0
  | positive {digits} : AreDigits digits →
      IsPower ('E' :: '+' :: digits) (Nat.ofDigitChars 10 digits 0)
  | negative {digits} : AreDigits digits →
      IsPower ('E' :: '-' :: digits) (-(Nat.ofDigitChars 10 digits 0 : Int))

section

variable {whole fraction digits power rest : List Char} {e : Int}

theorem exponentPart?_of_isPower (h : IsPower power e) : exponentPart? power = some e := by
  have htake : ∀ {digits}, AreDigits digits → ∃ d ds,
      takeDigits digits = (d :: ds, []) ∧ ofDigits (d :: ds) = Nat.ofDigitChars 10 digits 0 := by
    intro digits hdigits
    obtain ⟨c, cs, rfl⟩ := List.exists_cons_of_ne_nil hdigits.1
    have hall := takeDigits_append hdigits.2 (rfl : takeDigits [] = ([], []))
    rw [List.append_nil] at hall
    exact ⟨_, _, hall, ofDigits_map (c :: cs)⟩
  cases h with
  | none => rfl
  | positive hdigits =>
    obtain ⟨d, ds, hall, hvalue⟩ := htake hdigits
    simp [exponentPart?, takeSign, hall, hvalue]
  | negative hdigits =>
    obtain ⟨d, ds, hall, hvalue⟩ := htake hdigits
    simp [exponentPart?, takeSign, hall, hvalue]

theorem takeDigits_of_isPower (h : IsPower power e) : takeDigits power = ([], power) := by
  cases h <;> rfl

theorem takeDigits_pointed (fraction : List Char) (h : IsPower power e) :
    takeDigits (pointed fraction ++ power) = ([], pointed fraction ++ power) := by
  unfold pointed
  split
  next => exact takeDigits_of_isPower h
  next => rfl

/-- The point and the digits behind it are taken off, if they are there. -/
theorem fractionPart_pointed (hfraction : ∀ c ∈ fraction, c.isDigit = true) (h : IsPower power e) :
    fractionPart (pointed fraction ++ power) = (fraction.map fun c => c.toNat - 0x30, power) := by
  unfold pointed
  split
  next hnil =>
    subst hnil
    cases h <;> rfl
  next => exact takeDigits_append hfraction (takeDigits_of_isPower h)

/-- A numeral ends with a digit. -/
theorem exists_digits_of_numeral (hwhole : AreDigits whole)
    (hfraction : ∀ c ∈ fraction, c.isDigit = true) (hpower : IsPower power e) :
    ∃ before digits, whole ++ (pointed fraction ++ power) = before ++ digits ∧
      AreDigits digits := by
  have hpointed : ∃ before digits, whole ++ pointed fraction = before ++ digits ∧
      AreDigits digits := by
    unfold pointed
    split
    next => exact ⟨[], whole, by simp, hwhole⟩
    next hne => exact ⟨whole ++ ['.'], fraction, by simp, hne, hfraction⟩
  cases hpower with
  | none => simpa using hpointed
  | positive hdigits => exact ⟨whole ++ pointed fraction ++ ['E', '+'], _, by simp, hdigits⟩
  | negative hdigits => exact ⟨whole ++ pointed fraction ++ ['E', '-'], _, by simp, hdigits⟩

theorem ne_score_of_mem_power (h : IsPower power e) : ∀ c ∈ power, c ≠ '_' := by
  have hdigits : ∀ {digits}, AreDigits digits → ∀ c ∈ digits, c ≠ '_' :=
    fun h c hc => ne_of_isDigit (h.2 c hc) (by decide)
  intro c hc
  cases h with
  | none => cases hc
  | positive h =>
    rcases List.mem_cons.mp hc with rfl | hc
    · decide
    rcases List.mem_cons.mp hc with rfl | hc
    · decide
    exact hdigits h c hc
  | negative h =>
    rcases List.mem_cons.mp hc with rfl | hc
    · decide
    rcases List.mem_cons.mp hc with rfl | hc
    · decide
    exact hdigits h c hc

theorem ne_score_of_mem_sign {sign : List Char} (h : IsSign sign) : ∀ c ∈ sign, c ≠ '_' := by
  obtain rfl | rfl | rfl := h <;> simp

theorem ne_score_of_mem_pointed (hfraction : ∀ c ∈ fraction, c.isDigit = true) :
    ∀ c ∈ pointed fraction, c ≠ '_' := by
  intro c hc
  unfold pointed at hc
  split at hc
  next => cases hc
  next =>
    rcases List.mem_cons.mp hc with rfl | hc
    · decide
    · exact ne_of_isDigit (hfraction c hc) (by decide)

/-- The decimal that a sign, digits, digits behind a point and a power of ten denote. -/
theorem ofText?_eq_some {text : String} {sign : List Char}
    (htext : text.toList = sign ++ (whole ++ (pointed fraction ++ power))) (hsign : IsSign sign)
    (hwhole : AreDigits whole) (hfraction : ∀ c ∈ fraction, c.isDigit = true)
    (hpower : IsPower power e) :
    ofText? text = some
      { negative := decide (sign = ['-'])
        coefficient := Nat.ofDigitChars 10 (whole ++ fraction) 0
        exponent := e - fraction.length } := by
  obtain ⟨before, digits, hends, hdigits⟩ := exists_digits_of_numeral hwhole hfraction hpower
  have htrim : trim isAround text.toList = text.toList := by
    refine trim_numeral isAround_of_isNumeric hsign hwhole hdigits htext ⟨sign ++ before, ?_⟩
    rw [htext, hends, List.append_assoc]
  -- no scores are taken out
  have hfilter : text.toList.filter (· != '_') = text.toList := by
    rw [List.filter_eq_self, htext]
    intro c hc
    rw [bne_iff_ne]
    simp only [List.mem_append] at hc
    rcases hc with hc | hc | hc | hc
    · exact ne_score_of_mem_sign hsign c hc
    · exact ne_of_isDigit (hwhole.2 c hc) (by decide)
    · exact ne_score_of_mem_pointed hfraction c hc
    · exact ne_score_of_mem_power hpower c hc
  -- what is left falls into its pieces
  have hall : (trim isAround text.toList).filter (· != '_') =
      sign ++ (whole ++ (pointed fraction ++ power)) := by
    rw [htrim, hfilter, htext]
  have htakeSign := takeSign_append hsign hwhole (pointed fraction ++ power)
  have htakeWhole := takeDigits_append hwhole.2 (takeDigits_pointed fraction hpower)
  have htakeFraction := fractionPart_pointed hfraction hpower
  have hsome : (whole.map fun c => c.toNat - 0x30).isEmpty = false := by
    rw [List.isEmpty_eq_false_iff, ne_eq, List.map_eq_nil_iff]
    exact hwhole.1
  simp only [ofText?, hall, htakeSign, htakeWhole, htakeFraction, hsome, Bool.false_and,
    Bool.false_eq_true, if_false, exponentPart?_of_isPower hpower, Option.map_some,
    ← List.map_append, ofDigits_map, List.length_map]

end

/-! ### Written decimals -/

/-- A positional numeral has as many digits behind the point as it should, and zeros on the left do
not count. -/
theorem exists_of_positional {digits : List Char} (hdigits : AreDigits digits) (places : Nat) :
    ∃ whole fraction, positional digits places = whole ++ pointed fraction ∧ AreDigits whole ∧
      (∀ c ∈ fraction, c.isDigit = true) ∧ fraction.length = places ∧
      Nat.ofDigitChars 10 (whole ++ fraction) 0 = Nat.ofDigitChars 10 digits 0 := by
  obtain ⟨filled, hfilled⟩ : ∃ filled, filled =
      List.replicate (places + 1 - digits.length) '0' ++ digits := ⟨_, rfl⟩
  have hlength : places + 1 ≤ filled.length := by
    rw [hfilled, List.length_append, List.length_replicate]
    omega
  have hall : ∀ c ∈ filled, c.isDigit = true := by
    intro c hc
    rw [hfilled] at hc
    rcases List.mem_append.mp hc with hc | hc
    · rw [List.eq_of_mem_replicate hc]
      decide
    · exact hdigits.2 c hc
  have hvalue : Nat.ofDigitChars 10 filled 0 = Nat.ofDigitChars 10 digits 0 := by
    rw [hfilled, Nat.ofDigitChars_append, Nat.ofDigitChars_replicate_zero, Nat.mul_zero]
  -- the point stands in front of the last digits, and there is at least one before it
  have hdrop : (filled.drop (filled.length - places)).length = places := by
    rw [List.length_drop]
    omega
  refine ⟨filled.take (filled.length - places), filled.drop (filled.length - places), ?_,
    ⟨?_, ?_⟩, ?_, hdrop, ?_⟩
  · simp only [positional, pointed, ← hfilled, ← List.length_eq_zero_iff, hdrop]
    split <;> simp
  · rw [← List.length_pos_iff, List.length_take]
    omega
  · exact fun c hc => hall c (List.mem_of_mem_take hc)
  · exact fun c hc => hall c (List.mem_of_mem_drop hc)
  · rw [List.take_append_drop, hvalue]

/-- The name of a power of ten. -/
theorem isPower_scientific (power : Int) :
    IsPower ('E' :: (if power < 0 then '-' else '+') :: Nat.toDigits 10 power.natAbs) power := by
  by_cases hneg : power < 0
  · have h := IsPower.negative (areDigits_toDigits power.natAbs)
    rw [Nat.ofDigitChars_ten_toDigits, ← Int.eq_neg_natAbs_of_nonpos (Int.le_of_lt hneg)] at h
    rwa [if_pos hneg]
  · have h := IsPower.positive (areDigits_toDigits power.natAbs)
    rw [Nat.ofDigitChars_ten_toDigits, Int.natAbs_of_nonneg (Int.not_lt.mp hneg)] at h
    rwa [if_neg hneg]

/-- A scientific numeral has one digit in front of the point. -/
theorem exists_of_scientific {digits : List Char} (hdigits : AreDigits digits) (power : Int) :
    ∃ first fraction name, scientific digits power = [first] ++ (pointed fraction ++ name) ∧
      digits = first :: fraction ∧ IsPower name power := by
  obtain ⟨first, fraction, rfl⟩ := List.exists_cons_of_ne_nil hdigits.1
  refine ⟨first, fraction, _, ?_, rfl, isPower_scientific power⟩
  cases fraction <;> rfl

/-- Behind its sign, the text of a decimal has digits, digits behind a point, and a power of ten. -/
theorem exists_pieces_of_text (a : Decimal) :
    ∃ whole fraction power e, AreDigits whole ∧ (∀ c ∈ fraction, c.isDigit = true) ∧
      IsPower power e ∧ a.text.toList =
        (if a.negative then ['-'] else []) ++ (whole ++ (pointed fraction ++ power)) := by
  have hdigits := areDigits_toDigits a.coefficient
  have hsigned : ∀ body : List Char, (String.ofList (if a.negative then '-' :: body else body)).toList
      = (if a.negative then ['-'] else []) ++ body := by
    intro body
    rw [String.toList_ofList]
    split <;> rfl
  simp only [text, hsigned]
  by_cases hrange : a.exponent ≤ 0 ∧ -6 ≤ a.power
  · obtain ⟨whole, fraction, hbody, hwhole, hfraction, -, -⟩ :=
      exists_of_positional hdigits (-a.exponent).toNat
    refine ⟨whole, fraction, [], 0, hwhole, hfraction, .none, ?_⟩
    rw [if_pos hrange, hbody, List.append_nil]
  · obtain ⟨first, fraction, name, hbody, hfirst, hname⟩ := exists_of_scientific hdigits a.power
    rw [hfirst] at hdigits
    obtain ⟨hwhole, hfraction⟩ := List.forall_mem_cons.mp hdigits.2
    refine ⟨[first], fraction, name, _, ⟨by simp, by simpa using hwhole⟩, hfraction, hname, ?_⟩
    rw [if_neg hrange, hbody]

/-- A decimal can be read back from its text, with its sign, its coefficient and its exponent. -/
theorem ofText?_text (a : Decimal) : ofText? a.text = some a := by
  obtain ⟨negative, coefficient, exponent⟩ := a
  have hdigits := areDigits_toDigits coefficient
  have hcoefficient : Nat.ofDigitChars 10 (Nat.toDigits 10 coefficient) 0 = coefficient :=
    Nat.ofDigitChars_ten_toDigits
  obtain ⟨sign, hsign, hnegative, htext⟩ : ∃ sign, IsSign sign ∧
      decide (sign = ['-']) = negative ∧
        ∀ body, (if negative = true then '-' :: body else body) = sign ++ body := by
    cases negative with
    | true => exact ⟨['-'], .inr (.inr rfl), rfl, fun _ => rfl⟩
    | false => exact ⟨[], .inl rfl, rfl, fun _ => rfl⟩
  simp only [text, htext]
  split
  -- positional: the digits behind the point make up the exponent
  next hrange =>
    obtain ⟨whole, fraction, hbody, hwhole, hfraction, hlength, hvalue⟩ :=
      exists_of_positional hdigits (-exponent).toNat
    rw [hbody, ofText?_eq_some (String.toList_ofList.trans (by simp)) hsign hwhole hfraction .none,
      hvalue, hcoefficient, hnegative, hlength]
    congr 2
    omega
  -- scientific: the name of the power counts from behind the first digit
  next hrange =>
    obtain ⟨first, fraction, name, hbody, hfirst, hname⟩ :=
      exists_of_scientific hdigits (power ⟨negative, coefficient, exponent⟩)
    rw [hfirst] at hdigits
    have hall := List.forall_mem_cons.mp hdigits.2
    have hwhole : AreDigits [first] := ⟨by simp, by simpa using hall.1⟩
    have hcount : digitCount coefficient = fraction.length + 1 := by
      rw [digitCount, hfirst, List.length_cons]
    rw [hbody, ofText?_eq_some String.toList_ofList hsign hwhole hall.2 hname,
      List.singleton_append, ← hfirst, hcoefficient, hnegative]
    congr 2
    simp only [power, hcount]
    omega

end Decimal

end BlockScript

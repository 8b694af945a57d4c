import BlockScript.Token.Lexer
import Mathlib.Data.List.TakeWhile
/-!
# Tokens that spell themselves

A lexed token is one that the lexer reads from the token's own text: its kind goes with its text.
Every token of a source text is such a token, because each class of tokens is stable: whether a
piece of text belongs to it does not depend on what follows the piece, as long as nothing longer
does.

## Main definitions

* `Token.spelling` — kind and text of a token
* `Token.Lexed` — kind and text go together as the lexer pairs them
* `Lexer.IsStable` — classes of tokens that do not depend on what follows

## Main results

* `Token.lexed_of_tokenize` — the tokens of a source text are lexed
* `Token.Lexed.kind_eq` — the text of a lexed token determines its kind
-/

namespace BlockScript

namespace Lexer

/-- A class of tokens that can be recognised without looking behind the token: what is found in a
piece of text is also found, perhaps longer, with more text behind the piece, and what just fills
the piece there is found in the piece alone. -/
structure IsStable (length? : List Char → Option Nat) : Prop where
  /-- A token is no longer than the text. -/
  le_length : ∀ {cs n}, length? cs = some n → n ≤ cs.length
  /-- A token stays one if text is added, but may go on. -/
  isSome_append : ∀ {cs n} (tail), length? cs = some n → (length? (cs ++ tail)).isSome
  /-- A token that fills a piece of text is read from the piece. -/
  eq_of_append : ∀ {cs tail}, length? (cs ++ tail) = some cs.length →
    length? cs = some cs.length

/-! ### Numbers -/

theorem digitsLength_le (cs : List Char) : digitsLength cs ≤ cs.length :=
  (List.takeWhile_prefix _).length_le

/-- Digits are counted on behind a piece of text only if all of the piece is digits. -/
theorem digitsLength_append (cs tail : List Char) :
    digitsLength (cs ++ tail) =
      if digitsLength cs = cs.length then cs.length + digitsLength tail else digitsLength cs := by
  unfold digitsLength
  rw [List.takeWhile_append]
  split <;> simp

theorem signLength_le_one (cs : List Char) : signLength cs ≤ 1 := by
  unfold signLength
  split <;> simp

theorem signLength_cons_append (c : Char) (cs tail : List Char) :
    signLength (c :: cs ++ tail) = signLength (c :: cs) := by
  simp only [List.cons_append]
  unfold signLength
  split <;> simp_all

/-- An integer is a sign and at least one digit. -/
theorem integerLength?_eq_some_iff {cs : List Char} {n : Nat} :
    integerLength? cs = some n ↔
      digitsLength (cs.drop (signLength cs)) ≠ 0 ∧
        n = signLength cs + digitsLength (cs.drop (signLength cs)) := by
  unfold integerLength?
  split <;> rename_i h <;> rw [h] <;> simp [eq_comm]

theorem integerLength?_le {cs : List Char} {n : Nat} (h : integerLength? cs = some n) :
    n ≤ cs.length := by
  obtain ⟨hpos, rfl⟩ := integerLength?_eq_some_iff.mp h
  have hle := digitsLength_le (cs.drop (signLength cs))
  rw [List.length_drop] at hle
  omega

/-- What follows an integer changes it only if it fills all of its text. -/
theorem integerLength?_append {cs : List Char} {n : Nat} (tail : List Char)
    (h : integerLength? cs = some n) :
    integerLength? (cs ++ tail) =
      some (if n = cs.length then n + digitsLength tail else n) := by
  obtain _ | ⟨c, cs⟩ := cs
  · simp [integerLength?, digitsLength] at h
  have hsign := signLength_cons_append c cs tail
  have hone := signLength_le_one (c :: cs)
  have hdrop : (c :: cs ++ tail).drop (signLength (c :: cs)) =
      (c :: cs).drop (signLength (c :: cs)) ++ tail :=
    List.drop_append_of_le_length (by simp only [List.length_cons]; omega)
  obtain ⟨hpos, rfl⟩ := integerLength?_eq_some_iff.mp h
  refine integerLength?_eq_some_iff.mpr ?_
  have hle := digitsLength_le ((c :: cs).drop (signLength (c :: cs)))
  rw [hsign, hdrop, digitsLength_append]
  rw [List.length_drop] at hle ⊢
  simp only [List.length_cons] at hle ⊢
  -- the digits either fill the text, and go on behind it, or end inside it
  split <;> split <;> omega

/-- An integer that fills a piece of text at most is read from the piece. -/
theorem integerLength?_of_append {cs tail : List Char} {n : Nat}
    (h : integerLength? (cs ++ tail) = some n) (hn : n ≤ cs.length) :
    integerLength? cs = some n := by
  obtain _ | ⟨c, cs⟩ := cs
  · obtain ⟨hpos, rfl⟩ := integerLength?_eq_some_iff.mp h
    simp only [List.nil_append, List.length_nil] at hn hpos
    omega
  have hsign := signLength_cons_append c cs tail
  have hone := signLength_le_one (c :: cs)
  have hdrop : (c :: cs ++ tail).drop (signLength (c :: cs)) =
      (c :: cs).drop (signLength (c :: cs)) ++ tail :=
    List.drop_append_of_le_length (by simp only [List.length_cons]; omega)
  obtain ⟨hpos, rfl⟩ := integerLength?_eq_some_iff.mp h
  refine integerLength?_eq_some_iff.mpr ?_
  rw [hsign, hdrop, digitsLength_append] at hpos hn ⊢
  rw [List.length_drop] at hpos hn ⊢
  simp only [List.length_cons] at hpos hn ⊢
  -- digits that fill the piece do not go on: the integer would not fit into the piece
  split at hpos <;> rename_i hfull
  · rw [if_pos hfull] at hn ⊢
    omega
  · rw [if_neg hfull]
    omega

theorem isStable_integerLength? : IsStable integerLength? where
  le_length := integerLength?_le
  isSome_append tail h := by rw [integerLength?_append tail h]; rfl
  eq_of_append h := integerLength?_of_append h le_rfl

/-- A decimal is an integer, a point and at least one digit. -/
theorem decimalLength?_eq_some_iff {cs : List Char} {n : Nat} :
    decimalLength? cs = some n ↔
      ∃ whole fraction, integerLength? cs = some whole ∧ cs.drop whole = '.' :: fraction ∧
        digitsLength fraction ≠ 0 ∧ n = whole + 1 + digitsLength fraction := by
  unfold decimalLength?
  rw [Option.bind_eq_some_iff]
  refine exists_congr fun whole => ?_
  constructor
  · rintro ⟨hwhole, h⟩
    split at h
    next fraction hdrop =>
      split at h
      next => simp at h
      next digits hdigits =>
        refine ⟨fraction, hwhole, hdrop, by omega, ?_⟩
        rw [hdigits]
        exact (Option.some.inj h).symm
    next => simp at h
  · rintro ⟨fraction, hwhole, hdrop, hpos, rfl⟩
    refine ⟨hwhole, ?_⟩
    rw [hdrop]
    obtain ⟨digits, hdigits⟩ := Nat.exists_eq_succ_of_ne_zero hpos
    simp [hdigits]

theorem length_of_drop_eq_cons {cs rest : List Char} {c : Char} {n : Nat}
    (h : cs.drop n = c :: rest) : cs.length = n + 1 + rest.length := by
  have hlength := congrArg List.length h
  rw [List.length_drop, List.length_cons] at hlength
  omega

theorem isStable_decimalLength? : IsStable decimalLength? where
  le_length h := by
    obtain ⟨whole, fraction, -, hdrop, -, rfl⟩ := decimalLength?_eq_some_iff.mp h
    have hlength := length_of_drop_eq_cons hdrop
    have hle := digitsLength_le fraction
    omega
  isSome_append {cs n} tail h := by
    obtain ⟨whole, fraction, hwhole, hdrop, hpos, rfl⟩ := decimalLength?_eq_some_iff.mp h
    have hlength := length_of_drop_eq_cons hdrop
    rw [Option.isSome_iff_exists]
    refine ⟨_, decimalLength?_eq_some_iff.mpr ⟨whole, fraction ++ tail, ?_, ?_, ?_, rfl⟩⟩
    · rw [integerLength?_append tail hwhole, if_neg (by omega)]
    · rw [List.drop_append_of_le_length (by omega), hdrop, List.cons_append]
    · rw [digitsLength_append]
      split <;> omega
  eq_of_append {cs tail} h := by
    obtain ⟨whole, fraction, hwhole, hdrop, hpos, hn⟩ := decimalLength?_eq_some_iff.mp h
    -- a digit follows the point, so the point itself is inside the piece
    obtain ⟨c, rest, hcs⟩ : ∃ c rest, cs.drop whole = c :: rest := by
      cases hcs : cs.drop whole with
      | nil =>
        rw [List.drop_eq_nil_iff] at hcs
        omega
      | cons c rest => exact ⟨c, rest, rfl⟩
    have hlength := length_of_drop_eq_cons hcs
    rw [List.drop_append_of_le_length (by omega), hcs, List.cons_append] at hdrop
    obtain ⟨rfl, rfl⟩ := List.cons.inj hdrop
    -- digits that ended inside the piece would leave a part of it over
    have hrest : digitsLength rest = rest.length := by
      have hle := digitsLength_le rest
      by_contra hne
      rw [digitsLength_append, if_neg hne] at hn
      omega
    refine decimalLength?_eq_some_iff.mpr ⟨whole, rest, ?_, hcs, ?_, by omega⟩
    · exact integerLength?_of_append hwhole (by omega)
    · rw [digitsLength_append, if_pos hrest] at hn hpos
      omega

/-! ### Names and operators -/

theorem isStable_identifierLength? : IsStable identifierLength? where
  le_length {cs n} h := by
    obtain _ | ⟨c, cs⟩ := cs
    · simp [identifierLength?] at h
    · have hle := (List.takeWhile_prefix (l := cs) isIdentifierPart).length_le
      simp only [identifierLength?, Option.ite_none_right_eq_some, Option.some.injEq] at h
      rw [List.length_cons]
      omega
  isSome_append {cs n} tail h := by
    obtain _ | ⟨c, cs⟩ := cs
    · simp [identifierLength?] at h
    · simp only [identifierLength?, Option.ite_none_right_eq_some] at h
      simp [identifierLength?, h.1]
  eq_of_append {cs tail} h := by
    obtain _ | ⟨c, cs⟩ := cs
    · obtain _ | ⟨d, tail⟩ := tail
      · simp [identifierLength?] at h
      · simp only [List.nil_append, identifierLength?, Option.ite_none_right_eq_some,
          Option.some.injEq, List.length_nil] at h
        omega
    · simp only [List.cons_append, identifierLength?, Option.ite_none_right_eq_some,
        Option.some.injEq, List.length_cons, List.takeWhile_append] at h ⊢
      refine ⟨h.1, ?_⟩
      -- a name that went on behind the piece would be longer than the piece
      have h := h.2
      split at h
      next hfull => omega
      next => exact h

/-- Whether two characters belong together is seen from them alone. -/
theorem operatorLength?_cons_congr {rest rest' : List Char} (c : Char)
    (h : rest.head? = rest'.head?) :
    operatorLength? (c :: rest) = operatorLength? (c :: rest') := by
  rw [operatorLength?, operatorLength?, h]

theorem operatorLength?_bounds {cs : List Char} {n : Nat} (h : operatorLength? cs = some n) :
    1 ≤ n ∧ n ≤ 2 ∧ n ≤ cs.length := by
  obtain _ | ⟨c, _ | ⟨d, cs⟩⟩ := cs
  · cases h
  · have hone : n = 1 := by
      simp [operatorLength?] at h
      exact h.2.symm
    simp [hone]
  · have htwo : n = 1 ∨ n = 2 := by
      rw [operatorLength?] at h
      split_ifs at h <;> simp_all
    simp only [List.length_cons]
    omega

/-- Every character that can begin an operator of two is an operator by itself. -/
theorem operatorLength?_singleton {c : Char} {rest : List Char} {n : Nat}
    (h : operatorLength? (c :: rest) = some n) : operatorLength? [c] = some 1 := by
  -- only the first character counts; the cases are the pairs that belong together
  suffices hmem : operatorCharacters.contains c = true by simp_all [operatorLength?]
  rw [operatorLength?] at h
  split_ifs at h with h₁ h₂ h₃ h₄
  · obtain ⟨rfl | rfl | rfl | rfl, -⟩ := h₁ <;> decide
  · obtain ⟨rfl, -⟩ := h₂
    decide
  · obtain ⟨rfl, -⟩ := h₃
    decide
  · exact h₄

theorem isStable_operatorLength? : IsStable operatorLength? where
  le_length h := (operatorLength?_bounds h).2.2
  isSome_append {cs n} tail h := by
    obtain _ | ⟨c, _ | ⟨d, cs⟩⟩ := cs
    · cases h
    · have hc : operatorCharacters.contains c = true := by
        simp [operatorLength?] at h
        simpa using h.1
      rw [List.singleton_append, operatorLength?]
      split_ifs <;> simp_all
    -- the second character is there already, so nothing behind it is looked at
    · have hhead : (d :: cs ++ tail).head? = (d :: cs).head? := rfl
      rw [List.cons_append, operatorLength?_cons_congr c hhead, h]
      rfl
  eq_of_append {cs tail} h := by
    obtain _ | ⟨c, _ | ⟨d, cs⟩⟩ := cs
    · have hle := operatorLength?_bounds h
      simp at hle
    · exact operatorLength?_singleton h
    · rw [← h, List.cons_append]
      exact operatorLength?_cons_congr c (by simp)

/-! ### Characters and strings -/

/-- A character is one character or one escape between single quotes. -/
theorem characterLength?_eq_some_iff {cs : List Char} {n : Nat} :
    characterLength? cs = some n ↔
      (∃ c rest, cs = '\'' :: '\\' :: c :: '\'' :: rest ∧ isEscapeLetter c = true ∧ n = 4) ∨
      (∃ c rest, cs = '\'' :: c :: '\'' :: rest ∧ ¬ (c = '\'' ∨ c = '\\' ∨ c = '\n' ∨ c = '\r') ∧
        n = 3) := by
  unfold characterLength?
  split
  next c rest =>
    simp only [Option.ite_none_right_eq_some, Option.some.injEq, List.cons.injEq, true_and]
    constructor
    · rintro ⟨hc, rfl⟩
      exact .inl ⟨c, rest, ⟨rfl, rfl⟩, hc, rfl⟩
    · rintro (⟨_, _, ⟨rfl, rfl⟩, hc, rfl⟩ | ⟨_, _, ⟨rfl, -⟩, hc, -⟩)
      · exact ⟨hc, rfl⟩
      · simp at hc
  next c rest hne =>
    simp only [Option.ite_none_left_eq_some, Option.some.injEq]
    constructor
    · rintro ⟨hc, rfl⟩
      exact .inr ⟨c, rest, rfl, hc, rfl⟩
    · rintro (⟨d, tail, htail, -, -⟩ | ⟨d, tail, htail, hd, rfl⟩)
      · simp only [List.cons.injEq, true_and] at htail
        obtain ⟨rfl, rfl, rfl⟩ := htail
        exact (hne tail rfl rfl).elim
      · simp only [List.cons.injEq, true_and] at htail
        obtain ⟨rfl, rfl⟩ := htail
        exact ⟨hd, rfl⟩
  next hescape hplain =>
    simp only [reduceCtorEq, false_iff, not_or, not_exists]
    constructor
    · rintro c rest ⟨rfl, -⟩
      exact hescape c rest rfl
    · rintro c rest ⟨rfl, -⟩
      exact hplain c rest rfl

theorem isStable_characterLength? : IsStable characterLength? where
  le_length h := by
    rcases characterLength?_eq_some_iff.mp h with ⟨c, rest, rfl, -, rfl⟩ | ⟨c, rest, rfl, -, rfl⟩
    all_goals simp
  isSome_append tail h := by
    rw [Option.isSome_iff_exists]
    rcases characterLength?_eq_some_iff.mp h with ⟨c, rest, rfl, hc, -⟩ | ⟨c, rest, rfl, hc, -⟩
    · exact ⟨4, characterLength?_eq_some_iff.mpr (.inl ⟨c, rest ++ tail, rfl, hc, rfl⟩)⟩
    · exact ⟨3, characterLength?_eq_some_iff.mpr (.inr ⟨c, rest ++ tail, rfl, hc, rfl⟩)⟩
  eq_of_append {cs tail} h := by
    refine characterLength?_eq_some_iff.mpr ?_
    rcases characterLength?_eq_some_iff.mp h with ⟨c, rest, hcs, hc, hn⟩ | ⟨c, rest, hcs, hc, hn⟩
    · obtain ⟨hcs, -⟩ :=
        List.append_inj (hcs.trans (by simp : _ = ['\'', '\\', c, '\''] ++ rest)) hn
      exact .inl ⟨c, [], hcs, hc, hn⟩
    · obtain ⟨hcs, -⟩ := List.append_inj (hcs.trans (by simp : _ = ['\'', c, '\''] ++ rest)) hn
      exact .inr ⟨c, [], hcs, hc, hn⟩

/-- The rest of a string by its first character. -/
theorem stringRestLength?_cons (c : Char) (cs : List Char) :
    stringRestLength? (c :: cs) =
      if c = '"' then some 1
      else if c = '\\' then
        match cs with
        | [] => none
        | d :: rest => if isEscapeLetter d then (stringRestLength? rest).map (2 + ·) else none
      else if c = '\n' ∨ c = '\r' then none
      else (stringRestLength? cs).map (1 + ·) := by
  cases cs <;> simp [stringRestLength?]

theorem stringRestLength?_pos {cs : List Char} {n : Nat} (h : stringRestLength? cs = some n) :
    1 ≤ n := by
  obtain _ | ⟨c, cs⟩ := cs
  · cases h
  rw [stringRestLength?_cons] at h
  split_ifs at h
  · exact (Option.some.inj h).le
  · obtain _ | ⟨d, rest⟩ := cs
    · cases h
    · simp only [Option.ite_none_right_eq_some, Option.map_eq_some_iff] at h
      omega
  · obtain ⟨m, -, rfl⟩ := Option.map_eq_some_iff.mp h
    omega

/-- Only the piece of text up to the closing quote matters for the rest of a string. -/
theorem stringRestLength?_append_iff (cs tail : List Char) (n : Nat) :
    stringRestLength? cs = some n ↔ stringRestLength? (cs ++ tail) = some n ∧ n ≤ cs.length := by
  -- an escape takes two characters at once, hence the induction on the length
  induction hlength : cs.length using Nat.strong_induction_on generalizing cs n with
  | _ length ih =>
    subst hlength
    obtain _ | ⟨c, cs⟩ := cs
    · constructor
      · intro h
        cases h
      · rintro ⟨h, hn⟩
        have hpos := stringRestLength?_pos h
        simp at hn
        omega
    rw [List.cons_append, stringRestLength?_cons, stringRestLength?_cons, List.length_cons]
    split_ifs with hquote hescape
    · simp only [Option.some.injEq]
      omega
    · obtain _ | ⟨d, rest⟩ := cs
      · constructor
        · intro h
          cases h
        · rintro ⟨h, hn⟩
          obtain _ | ⟨d, tail⟩ := tail
          · cases h
          · simp only [List.nil_append, Option.ite_none_right_eq_some,
              Option.map_eq_some_iff] at h
            simp at hn
            omega
      · simp only [List.cons_append, Option.ite_none_right_eq_some, Option.map_eq_some_iff,
          List.length_cons,
          ih rest.length (by simp only [List.length_cons]; omega) rest _ rfl]
        constructor
        · rintro ⟨hd, m, ⟨hm, hle⟩, rfl⟩
          exact ⟨⟨hd, m, hm, rfl⟩, by omega⟩
        · rintro ⟨⟨hd, m, hm, rfl⟩, hle⟩
          exact ⟨hd, m, ⟨hm, by omega⟩, rfl⟩
    · simp
    · simp only [Option.map_eq_some_iff, ih cs.length (by simp) cs _ rfl]
      constructor
      · rintro ⟨m, ⟨hm, hle⟩, rfl⟩
        exact ⟨⟨m, hm, rfl⟩, by omega⟩
      · rintro ⟨⟨m, hm, rfl⟩, hle⟩
        exact ⟨m, ⟨hm, by omega⟩, rfl⟩

/-- A string is a double quote and the rest of a string. -/
theorem stringLength?_eq_some_iff {cs : List Char} {n : Nat} :
    stringLength? cs = some n ↔
      ∃ rest m, cs = '"' :: rest ∧ stringRestLength? rest = some m ∧ n = 1 + m := by
  unfold stringLength?
  split
  next rest =>
    simp only [Option.map_eq_some_iff, List.cons.injEq, true_and]
    constructor
    · rintro ⟨m, hm, rfl⟩
      exact ⟨rest, m, rfl, hm, rfl⟩
    · rintro ⟨_, m, rfl, hm, rfl⟩
      exact ⟨m, hm, rfl⟩
  next hne =>
    simp only [reduceCtorEq, false_iff]
    rintro ⟨rest, m, rfl, -, -⟩
    exact hne rest rfl

theorem isStable_stringLength? : IsStable stringLength? where
  le_length h := by
    obtain ⟨rest, m, rfl, hm, rfl⟩ := stringLength?_eq_some_iff.mp h
    have hle := ((stringRestLength?_append_iff rest [] m).mp hm).2
    simp only [List.length_cons]
    omega
  isSome_append tail h := by
    obtain ⟨rest, m, rfl, hm, rfl⟩ := stringLength?_eq_some_iff.mp h
    rw [Option.isSome_iff_exists]
    exact ⟨_, stringLength?_eq_some_iff.mpr ⟨rest ++ tail, m, rfl,
      ((stringRestLength?_append_iff rest tail m).mp hm).1, rfl⟩⟩
  eq_of_append {cs tail} h := by
    obtain ⟨rest, m, hcs, hm, hn⟩ := stringLength?_eq_some_iff.mp h
    obtain _ | ⟨c, cs⟩ := cs
    · rw [List.length_nil] at hn
      omega
    · obtain ⟨rfl, rfl⟩ := List.cons.inj hcs
      rw [List.length_cons] at hn ⊢
      exact stringLength?_eq_some_iff.mpr ⟨cs, m, rfl,
        (stringRestLength?_append_iff cs tail m).mpr ⟨hm, by omega⟩, by omega⟩

/-! ### All classes -/

theorem isStable_of_mem_classes {entry : TokenKind × (List Char → Option Nat)}
    (h : entry ∈ classes) : IsStable entry.2 := by
  simp only [classes, List.mem_cons, List.not_mem_nil, or_false] at h
  rcases h with rfl | rfl | rfl | rfl | rfl | rfl
  · exact isStable_decimalLength?
  · exact isStable_integerLength?
  · exact isStable_identifierLength?
  · exact isStable_characterLength?
  · exact isStable_stringLength?
  · exact isStable_operatorLength?

/-- The first of several classes that a text begins with a token of, and the token's length. -/
def firstOf (entries : List (TokenKind × (List Char → Option Nat))) (cs : List Char) :
    Option (TokenKind × Nat) :=
  entries.findSome? fun (kind, length?) => (length? cs).map fun length => (kind, length)

/-- Which of several stable classes a token belongs to is seen from the token alone. -/
theorem firstOf_of_append {entries : List (TokenKind × (List Char → Option Nat))}
    (hstable : ∀ entry ∈ entries, IsStable entry.2) {cs tail : List Char} {kind : TokenKind}
    (h : firstOf entries (cs ++ tail) = some (kind, cs.length)) :
    firstOf entries cs = some (kind, cs.length) := by
  induction entries with
  | nil => cases h
  | cons entry entries ih =>
    have hentry := hstable entry List.mem_cons_self
    simp only [firstOf, List.findSome?_cons] at h ⊢
    cases hlong : entry.2 (cs ++ tail) with
    | some n =>
      simp only [hlong, Option.map_some, Option.some.injEq, Prod.mk.injEq] at h
      obtain ⟨rfl, rfl⟩ := h
      rw [hentry.eq_of_append hlong, Option.map_some]
    | none =>
      -- a token of this class in the piece would also be found, perhaps longer, with more text
      have hshort : entry.2 cs = none := by
        by_contra hne
        obtain ⟨n, hn⟩ := Option.ne_none_iff_exists'.mp hne
        have hsome := hentry.isSome_append tail hn
        rw [hlong] at hsome
        cases hsome
      simp only [hlong, Option.map_none] at h
      simp only [hshort, Option.map_none]
      exact ih (fun e he => hstable e (List.mem_cons_of_mem _ he)) h

theorem tokenAt?_le {cs : List Char} {kind : TokenKind} {n : Nat}
    (h : tokenAt? cs = some (kind, n)) : n ≤ cs.length := by
  obtain ⟨entry, hmem, hentry⟩ := List.exists_of_findSome?_eq_some h
  obtain ⟨m, hm, hkind⟩ := Option.map_eq_some_iff.mp hentry
  obtain ⟨-, rfl⟩ := Prod.mk.inj hkind
  exact (isStable_of_mem_classes hmem).le_length hm

/-- The token at the head of a text is also at the head of its own characters. -/
theorem tokenAt?_take {cs : List Char} {kind : TokenKind} {n : Nat}
    (h : tokenAt? cs = some (kind, n)) : tokenAt? (cs.take n) = some (kind, n) := by
  have hlength : (cs.take n).length = n := by
    rw [List.length_take, Nat.min_eq_left (tokenAt?_le h)]
  have happend : firstOf classes (cs.take n ++ cs.drop n) = some (kind, (cs.take n).length) := by
    rw [List.take_append_drop, hlength]
    exact h
  have hown := firstOf_of_append (fun _ => isStable_of_mem_classes) happend
  rwa [hlength] at hown

end Lexer

/-- The kind and the text of a token, without its index. -/
def Token.spelling (token : Token) : TokenKind × String :=
  (token.kind, token.text)

/-- The kind of a token goes with its text as the lexer pairs them. -/
def Token.Lexed (token : Token) : Prop :=
  Lexer.tokenAt? token.text.toList = some (token.kind, token.text.length)

instance : DecidablePred Token.Lexed :=
  fun token => inferInstanceAs (Decidable (Lexer.tokenAt? token.text.toList = _))

/-- The text of a lexed token determines its kind. -/
theorem Token.Lexed.kind_eq {token other : Token} (h : token.Lexed) (hother : other.Lexed)
    (htext : token.text = other.text) : token.kind = other.kind := by
  rw [Token.Lexed, htext, hother] at h
  exact (Prod.mk.inj (Option.some.inj h)).1.symm

theorem Lexer.lexed_of_tokensFrom {index pending : Nat} {cs : List Char} {tokens : List Token}
    (h : tokensFrom index pending cs = .ok tokens) : ∀ token ∈ tokens, token.Lexed := by
  induction cs generalizing index pending tokens with
  | nil =>
    cases h
    simp
  | cons c rest ih =>
    cases pending with
    -- the character belongs to a token that was found before
    | succ pending => exact ih h
    | zero =>
      rw [tokensFrom] at h
      split at h
      · exact ih h
      · split at h
        · cases h
        · rename_i kind length hat
          -- a token begins here; its other characters are passed over
          cases hrest : tokensFrom (index + 1) (length - 1) rest with
          | error e =>
            rw [hrest] at h
            cases h
          | ok others =>
            rw [hrest] at h
            cases h
            intro token htoken
            rcases List.mem_cons.mp htoken with rfl | hmem
            · have hown := tokenAt?_take hat
              have hlength : ((c :: rest).take length).length = length := by
                rw [List.length_take, Nat.min_eq_left (tokenAt?_le hat)]
              rwa [Token.Lexed, String.toList_ofList, String.length_ofList, hlength]
            · exact ih hrest token hmem

/-- The tokens of a source text are lexed. -/
theorem Token.lexed_of_tokenize {source : String} {tokens : List Token}
    (h : tokenize source = .ok tokens) : ∀ token ∈ tokens, token.Lexed :=
  Lexer.lexed_of_tokensFrom h

end BlockScript

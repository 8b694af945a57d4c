import BlockScript.Proofs.Grammar
import BlockScript.Proofs.Lexeme
import BlockScript.Proofs.Numeral
/-!
# Literals have values

The grammar asks for the value of a numeral. A numeral that the lexer has found always has one, so
every integer, decimal, character and string of a source text is a literal.

## Main results

* `isSome_integerOfText?`, `Token.Lexed.exists_decimal` — numerals have values
* `Grammar.exists_literal` — tokens of the four kinds are literals
-/

namespace BlockScript

open Lexer Text

/-! ### Pieces of numerals -/

theorem exists_sign (cs : List Char) :
    ∃ sign rest, cs = sign ++ rest ∧ IsSign sign ∧ sign.length = signLength cs := by
  unfold signLength
  split
  next rest => exact ⟨['+'], rest, rfl, .inr (.inl rfl), rfl⟩
  next rest => exact ⟨['-'], rest, rfl, .inr (.inr rfl), rfl⟩
  next => exact ⟨[], cs, rfl, .inl rfl, rfl⟩

/-- The digits that are counted are digits. -/
theorem areDigits_take {cs : List Char} (h : digitsLength cs ≠ 0) :
    AreDigits (cs.take (digitsLength cs)) := by
  have htake : cs.take (digitsLength cs) = cs.takeWhile Char.isDigit :=
    (List.prefix_iff_eq_take.mp (List.takeWhile_prefix _)).symm
  rw [htake]
  exact ⟨List.ne_nil_of_length_pos (Nat.pos_of_ne_zero h), fun c hc => List.mem_takeWhile_imp hc⟩

/-- An integer consists of a sign and digits. -/
theorem exists_of_integerLength? {cs : List Char} {n : Nat} (h : integerLength? cs = some n) :
    ∃ sign digits, cs.take n = sign ++ digits ∧ IsSign sign ∧ AreDigits digits := by
  obtain ⟨sign, rest, rfl, hsign, hlength⟩ := exists_sign cs
  obtain ⟨hpos, rfl⟩ := integerLength?_eq_some_iff.mp h
  rw [← hlength, List.drop_left] at hpos
  refine ⟨sign, rest.take (digitsLength rest), ?_, hsign, areDigits_take hpos⟩
  rw [← hlength, List.drop_left, List.take_append, List.take_of_length_le (by omega)]
  simp

/-! ### Values of numerals -/

/-- The integers that the lexer finds have values. -/
theorem isSome_integerOfText? {text : String}
    (h : integerLength? text.toList = some text.toList.length) :
    (integerOfText? text).isSome = true := by
  obtain ⟨sign, digits, hcs, hsign, hdigits⟩ := exists_of_integerLength? h
  rw [List.take_length] at hcs
  rw [integerOfText?_eq_some hcs hsign hdigits]
  rfl

/-- The decimals that the lexer finds have values, with digits behind the point. -/
theorem Decimal.exists_of_decimalLength? {text : String}
    (h : decimalLength? text.toList = some text.toList.length) :
    ∃ value, Decimal.ofText? text = some value ∧ value.exponent < 0 := by
  obtain ⟨n, fraction, hwhole, hdrop, hpos, hlength⟩ := decimalLength?_eq_some_iff.mp h
  obtain ⟨sign, whole, htake, hsign, hdigits⟩ := exists_of_integerLength? hwhole
  -- the digits of the fraction fill the rest of the text
  have hfraction : AreDigits fraction := by
    have hall : digitsLength fraction = fraction.length := by
      have := length_of_drop_eq_cons hdrop
      omega
    have hareDigits := areDigits_take hpos
    rwa [hall, List.take_length] at hareDigits
  have hcs : text.toList = sign ++ (whole ++ (Decimal.pointed fraction ++ [])) := by
    rw [← List.take_append_drop n text.toList, htake, hdrop, List.append_assoc, Decimal.pointed,
      if_neg hfraction.1, List.append_nil]
  refine ⟨_, Decimal.ofText?_eq_some hcs hsign hdigits hfraction.2 .none, ?_⟩
  have hbehind := List.length_pos_iff.mpr hfraction.1
  simp only
  omega

/-! ### Tokens -/

theorem Lexer.eq_of_tokenAt? {cs : List Char} {kind : TokenKind} {n : Nat}
    (h : tokenAt? cs = some (kind, n)) :
    ∃ length?, (kind, length?) ∈ classes ∧ length? cs = some n := by
  obtain ⟨⟨kind', length?⟩, hmem, hlength⟩ := List.exists_of_findSome?_eq_some h
  obtain ⟨m, hm, heq⟩ := Option.map_eq_some_iff.mp hlength
  cases heq
  exact ⟨length?, hmem, hm⟩

/-- A decimal of a source text has a value, with digits behind the point. -/
theorem Token.Lexed.exists_decimal {token : Token} (h : token.Lexed)
    (hkind : token.kind = .decimal) :
    ∃ value, Decimal.ofText? token.text = some value ∧ value.exponent < 0 := by
  obtain ⟨length?, hmem, hlength⟩ := eq_of_tokenAt? h
  rw [← String.length_toList] at hlength
  rw [hkind] at hmem
  obtain rfl : length? = decimalLength? := by
    simpa [classes] using hmem
  exact Decimal.exists_of_decimalLength? hlength

/-- Every integer, decimal, character and string of a source text is a literal. -/
theorem Grammar.exists_literal {token : Token} (htoken : token.Lexed)
    (hkind : token.kind ∈ [.integer, .decimal, .character, .string]) :
    ∃ value, Literal token value := by
  obtain ⟨length?, hmem, hlength⟩ := eq_of_tokenAt? htoken
  rw [← String.length_toList] at hlength
  simp only [classes, List.mem_cons, List.not_mem_nil, Prod.mk.injEq, or_false] at hmem
  -- names and operators are of other kinds
  rcases hmem with ⟨hdecimal, rfl⟩ | ⟨hinteger, rfl⟩ | ⟨hother, -⟩ | ⟨hcharacter, -⟩ |
    ⟨hstring, -⟩ | ⟨hother, -⟩
  · obtain ⟨value, hvalue, -⟩ := htoken.exists_decimal hdecimal
    exact ⟨_, .decimal hdecimal hvalue⟩
  · obtain ⟨value, hvalue⟩ := Option.isSome_iff_exists.mp (isSome_integerOfText? hlength)
    exact ⟨_, .integer hinteger hvalue⟩
  · rw [hother] at hkind
    exact absurd hkind (by decide)
  · exact ⟨_, .character hcharacter⟩
  · exact ⟨_, .string hstring⟩
  · rw [hother] at hkind
    exact absurd hkind (by decide)

end BlockScript

import BlockScript.Proofs.Literal
import Mathlib.Computability.Language
/-!
# Terminals

The six terminals of the token grammar as languages, and what it means that a word is the token at
the head of a text: it is the longest word of its terminal there, and no terminal that is tried
earlier has a word there at all. The languages are put together from classes of characters by union,
concatenation and repetition; nothing about them depends on how a text is read.

## Main definitions

* `Terminal.language`, `Terminal.priority` — the words of a terminal, and its rank among the others
* `Terminal.Matches` — a terminal has a word at the head of a text
* `Terminal.IsFirst` — a word is the longest one of the first terminal that matches
* `Terminal.IsStuck` — neither a terminal nor a blank can be read

## Main results

* `Terminal.tokenAt?_eq_some_iff`, `Terminal.tokenAt?_eq_none_iff` — the lexer finds the first
  terminal, as long as it goes
* `Token.Lexed.mem_language` — tokens are words of their terminals
-/

namespace BlockScript

open Lexer
open scoped Computability

namespace Terminal

/-! ### Languages -/

/-- The words of one character of a class. -/
def oneOf (inClass : Char → Bool) : Language Char :=
  {word | ∃ c, inClass c = true ∧ word = [c]}

/-- The word that is a given text. -/
def exactly (text : String) : Language Char :=
  {word | word = text.toList}

/-- A sign, which may be missing. -/
def sign : Language Char :=
  1 + (exactly "+" + exactly "-")

/-- Digits, at least one. -/
def digits : Language Char :=
  oneOf Char.isDigit * (oneOf Char.isDigit)∗

/-- A character that stands for itself between two quotes: none of these quotes, no backslash and no
end of a line. -/
def isPlain (quote c : Char) : Bool :=
  c != quote && c != '\\' && c != '\n' && c != '\r'

/-- What may stand for one character between two quotes. -/
def quotable (quote : Char) : Language Char :=
  oneOf (isPlain quote) + exactly "\\" * oneOf isEscapeLetter

/-- The words of a terminal. -/
def language : TokenKind → Language Char
  | .decimal => sign * digits * exactly "." * digits
  | .integer => sign * digits
  | .identifier => oneOf isIdentifierStart * (oneOf isIdentifierPart)∗
  | .character => exactly "'" * quotable '\'' * exactly "'"
  | .string => exactly "\"" * (quotable '"')∗ * exactly "\""
  | .operator =>
    oneOf "<>!=".toList.contains * (1 + exactly "=") + exactly "&&" + exactly "||" +
      oneOf operatorCharacters.contains

/-- The rank of a terminal: one with a higher priority is tried earlier. -/
def priority : TokenKind → Nat
  | .decimal => 4
  | .integer => 3
  | .identifier | .character | .string => 2
  | .operator => 1

/-! ### Words at the head of a text -/

/-- A terminal has a word at the head of a text. -/
def Matches (kind : TokenKind) (cs : List Char) : Prop :=
  ∃ word ∈ language kind, word <+: cs

/-- A word is the longest one that a terminal has at the head of a text. -/
structure IsLongest (kind : TokenKind) (word cs : List Char) : Prop where
  /-- The terminal has the word. -/
  mem : word ∈ language kind
  /-- The text begins with the word. -/
  isPrefix : word <+: cs
  /-- The terminal has no longer word there. -/
  longest : ∀ other ∈ language kind, other <+: cs → other.length ≤ word.length

/-- A word is the longest one of a terminal at the head of a text, and all other terminals that have
a word there are tried later. -/
structure IsFirst (kind : TokenKind) (word cs : List Char) : Prop
    extends IsLongest kind word cs where
  /-- The terminal is tried before the others. -/
  first : ∀ other, Matches other cs → other ≠ kind → priority other < priority kind

/-- The characters that may stand between tokens. -/
def blanks : List Char :=
  [' ', '\t', '\x0c', '\r', '\n']

/-- A text begins neither with a blank nor with a word of a terminal. -/
def IsStuck (cs : List Char) : Prop :=
  (∀ c, cs.head? = some c → c ∉ blanks) ∧ ∀ kind, ¬Matches kind cs

/-! ### Membership -/

theorem isSpace_eq_true_iff {c : Char} : isSpace c = true ↔ c ∈ blanks := by
  simp [isSpace, blanks, or_assoc]

theorem mem_oneOf {inClass : Char → Bool} {word : List Char} :
    word ∈ oneOf inClass ↔ ∃ c, inClass c = true ∧ word = [c] :=
  Iff.rfl

theorem mem_exactly {text : String} {word : List Char} :
    word ∈ exactly text ↔ word = text.toList :=
  Iff.rfl

theorem mem_star_oneOf {inClass : Char → Bool} {word : List Char} :
    word ∈ (oneOf inClass)∗ ↔ ∀ c ∈ word, inClass c = true := by
  rw [Language.mem_kstar]
  constructor
  · rintro ⟨pieces, rfl, hpieces⟩ c hc
    obtain ⟨piece, hpiece, hmem⟩ := List.mem_flatten.mp hc
    obtain ⟨d, hd, rfl⟩ := hpieces piece hpiece
    rwa [List.mem_singleton.mp hmem]
  · intro h
    refine ⟨word.map fun c => [c], by simp [← List.flatMap_def], ?_⟩
    intro piece hpiece
    obtain ⟨c, hc, rfl⟩ := List.mem_map.mp hpiece
    exact ⟨c, h c hc, rfl⟩

theorem mem_sign {word : List Char} : word ∈ sign ↔ IsSign word := by
  simp only [sign, Language.mem_add, Language.mem_one, mem_exactly]
  exact Iff.rfl

theorem mem_digits {word : List Char} : word ∈ digits ↔ AreDigits word := by
  simp only [digits, Language.mem_mul, mem_star_oneOf, mem_oneOf]
  constructor
  · rintro ⟨_, ⟨c, hc, rfl⟩, rest, hrest, rfl⟩
    exact ⟨by simp, List.forall_mem_cons.mpr ⟨hc, hrest⟩⟩
  · rintro ⟨hne, hdigits⟩
    obtain ⟨c, rest, rfl⟩ := List.exists_cons_of_ne_nil hne
    obtain ⟨hc, hrest⟩ := List.forall_mem_cons.mp hdigits
    exact ⟨[c], ⟨c, hc, rfl⟩, rest, hrest, rfl⟩

theorem mem_integer {word : List Char} :
    word ∈ language .integer ↔ ∃ s ds, IsSign s ∧ AreDigits ds ∧ word = s ++ ds := by
  simp only [language, Language.mem_mul, mem_sign, mem_digits]
  constructor
  · rintro ⟨s, hs, ds, hds, rfl⟩
    exact ⟨s, ds, hs, hds, rfl⟩
  · rintro ⟨s, ds, hs, hds, rfl⟩
    exact ⟨s, hs, ds, hds, rfl⟩

theorem mem_decimal {word : List Char} :
    word ∈ language .decimal ↔ ∃ whole fraction, whole ∈ language .integer ∧ AreDigits fraction ∧
      word = whole ++ '.' :: fraction := by
  change word ∈ language .integer * exactly "." * digits ↔ _
  simp only [Language.mem_mul, mem_digits, mem_exactly]
  constructor
  · rintro ⟨_, ⟨whole, hwhole, _, rfl, rfl⟩, fraction, hfraction, rfl⟩
    exact ⟨whole, fraction, hwhole, hfraction, by simp⟩
  · rintro ⟨whole, fraction, hwhole, hfraction, rfl⟩
    exact ⟨_, ⟨whole, hwhole, _, rfl, rfl⟩, fraction, hfraction, by simp⟩

theorem mem_identifier {word : List Char} :
    word ∈ language .identifier ↔ ∃ c rest, isIdentifierStart c = true ∧
      (∀ d ∈ rest, isIdentifierPart d = true) ∧ word = c :: rest := by
  simp only [language, Language.mem_mul, mem_star_oneOf, mem_oneOf]
  constructor
  · rintro ⟨_, ⟨c, hc, rfl⟩, rest, hrest, rfl⟩
    exact ⟨c, rest, hc, hrest, rfl⟩
  · rintro ⟨c, rest, hc, hrest, rfl⟩
    exact ⟨[c], ⟨c, hc, rfl⟩, rest, hrest, rfl⟩

theorem mem_quotable {quote : Char} {word : List Char} :
    word ∈ quotable quote ↔
      (∃ c, isPlain quote c = true ∧ word = [c]) ∨
        ∃ c, isEscapeLetter c = true ∧ word = ['\\', c] := by
  simp only [quotable, Language.mem_add, Language.mem_mul, mem_oneOf, mem_exactly]
  constructor
  · rintro (h | ⟨_, rfl, _, ⟨c, hc, rfl⟩, rfl⟩)
    · exact .inl h
    · exact .inr ⟨c, hc, rfl⟩
  · rintro (h | ⟨c, hc, rfl⟩)
    · exact .inl h
    · exact .inr ⟨_, rfl, _, ⟨c, hc, rfl⟩, rfl⟩

theorem mem_character {word : List Char} :
    word ∈ language .character ↔ ∃ inner ∈ quotable '\'', word = '\'' :: (inner ++ ['\'']) := by
  simp only [language, Language.mem_mul, mem_exactly]
  constructor
  · rintro ⟨_, ⟨_, rfl, inner, hinner, rfl⟩, _, rfl, rfl⟩
    exact ⟨inner, hinner, by simp⟩
  · rintro ⟨inner, hinner, rfl⟩
    exact ⟨_, ⟨_, rfl, inner, hinner, rfl⟩, _, rfl, by simp⟩

theorem mem_string {word : List Char} :
    word ∈ language .string ↔ ∃ inner ∈ (quotable '"')∗, word = '"' :: (inner ++ ['"']) := by
  simp only [language, Language.mem_mul, mem_exactly]
  constructor
  · rintro ⟨_, ⟨_, rfl, inner, hinner, rfl⟩, _, rfl, rfl⟩
    exact ⟨inner, hinner, by simp⟩
  · rintro ⟨inner, hinner, rfl⟩
    exact ⟨_, ⟨_, rfl, inner, hinner, rfl⟩, _, rfl, by simp⟩

/-- Words of two characters that are one operator. -/
def IsPair (c d : Char) : Prop :=
  ((c = '<' ∨ c = '>' ∨ c = '!' ∨ c = '=') ∧ d = '=') ∨ (c = '&' ∧ d = '&') ∨ (c = '|' ∧ d = '|')

theorem mem_operator {word : List Char} :
    word ∈ language .operator ↔ (∃ c d, IsPair c d ∧ word = [c, d]) ∨
      ∃ c, operatorCharacters.contains c = true ∧ word = [c] := by
  have hclass : ∀ c, "<>!=".toList.contains c = true ↔
      (c = '<' ∨ c = '>' ∨ c = '!' ∨ c = '=') := by
    intro c
    simp
  simp only [language, Language.mem_add, Language.mem_mul, mem_oneOf, mem_exactly,
    Language.mem_one, hclass]
  constructor
  · rintro (((⟨_, ⟨c, hc, rfl⟩, _, rfl | rfl, rfl⟩ | rfl) | rfl) | h)
    · refine .inr ⟨c, ?_, rfl⟩
      rcases hc with rfl | rfl | rfl | rfl <;> decide
    · exact .inl ⟨c, '=', .inl ⟨hc, rfl⟩, rfl⟩
    · exact .inl ⟨'&', '&', .inr (.inl ⟨rfl, rfl⟩), rfl⟩
    · exact .inl ⟨'|', '|', .inr (.inr ⟨rfl, rfl⟩), rfl⟩
    · exact .inr h
  · rintro (⟨c, d, ⟨hc, rfl⟩ | ⟨rfl, rfl⟩ | ⟨rfl, rfl⟩, rfl⟩ | h)
    · exact .inl (.inl (.inl ⟨[c], ⟨c, hc, rfl⟩, _, .inr rfl, rfl⟩))
    · exact .inl (.inl (.inr rfl))
    · exact .inl (.inr rfl)
    · exact .inr h

/-! ### First characters -/

/-- Whether a word of a terminal may begin with a character. -/
def starts : TokenKind → Char → Bool
  | .decimal, c | .integer, c => c.isDigit || c == '+' || c == '-'
  | .identifier, c => isIdentifierStart c
  | .character, c => c == '\''
  | .string, c => c == '"'
  | .operator, c => operatorCharacters.contains c

theorem exists_starts_of_integer {word : List Char} (h : word ∈ language .integer) :
    ∃ c rest, word = c :: rest ∧ starts .integer c = true := by
  obtain ⟨s, ds, hs, hds, rfl⟩ := mem_integer.mp h
  obtain ⟨d, rest, rfl⟩ := List.exists_cons_of_ne_nil hds.1
  have hd : d.isDigit = true := hds.2 d List.mem_cons_self
  rcases hs with rfl | rfl | rfl
  · exact ⟨d, rest, rfl, by simp [starts, hd]⟩
  · exact ⟨'+', d :: rest, rfl, rfl⟩
  · exact ⟨'-', d :: rest, rfl, rfl⟩

/-- Words are not empty, and their first characters tell something about the terminal. -/
theorem exists_starts {kind : TokenKind} {word : List Char} (h : word ∈ language kind) :
    ∃ c rest, word = c :: rest ∧ starts kind c = true := by
  cases kind with
  | integer => exact exists_starts_of_integer h
  | decimal =>
    obtain ⟨whole, fraction, hwhole, -, rfl⟩ := mem_decimal.mp h
    obtain ⟨c, rest, rfl, hc⟩ := exists_starts_of_integer hwhole
    exact ⟨c, _, rfl, hc⟩
  | identifier =>
    obtain ⟨c, rest, hc, -, rfl⟩ := mem_identifier.mp h
    exact ⟨c, rest, rfl, hc⟩
  | character =>
    obtain ⟨inner, -, rfl⟩ := mem_character.mp h
    exact ⟨_, _, rfl, rfl⟩
  | string =>
    obtain ⟨inner, -, rfl⟩ := mem_string.mp h
    exact ⟨_, _, rfl, rfl⟩
  | operator =>
    rcases mem_operator.mp h with ⟨c, d, hpair, rfl⟩ | ⟨c, hc, rfl⟩
    · refine ⟨c, [d], rfl, ?_⟩
      rcases hpair with ⟨rfl | rfl | rfl | rfl, -⟩ | ⟨rfl, -⟩ | ⟨rfl, -⟩ <;> decide
    · exact ⟨c, [], rfl, hc⟩

theorem Matches.exists_starts {kind : TokenKind} {cs : List Char} (h : Matches kind cs) :
    ∃ c rest, cs = c :: rest ∧ starts kind c = true := by
  obtain ⟨word, hword, tail, rfl⟩ := h
  obtain ⟨c, rest, rfl, hc⟩ := Terminal.exists_starts hword
  exact ⟨c, rest ++ tail, rfl, hc⟩

/-- No word begins with a blank. -/
theorem starts_of_mem_blanks (kind : TokenKind) : ∀ c ∈ blanks, starts kind c = false := by
  simp only [blanks, List.forall_mem_cons]
  cases kind <;> exact ⟨rfl, rfl, rfl, rfl, rfl, List.forall_mem_nil _⟩

/-- What begins with a single quote is a character. -/
theorem eq_character_of_starts {kind : TokenKind} (h : starts kind '\'' = true) :
    kind = .character := by
  revert h
  cases kind <;> decide

/-- What begins with a double quote is a string. -/
theorem eq_string_of_starts {kind : TokenKind} (h : starts kind '"' = true) :
    kind = .string := by
  revert h
  cases kind <;> decide

/-! ### Classes of tokens -/

/-- A class of tokens finds the longest word of a language at the head of a text, if there is
one. -/
structure Recognizes (length? : List Char → Option Nat) (words : Language Char) : Prop where
  /-- What is found is a word. -/
  take_mem : ∀ {cs n}, length? cs = some n → cs.take n ∈ words
  /-- If there is a word, then one is found that is not shorter. -/
  longest : ∀ {word} (rest), word ∈ words →
    ∃ n, length? (word ++ rest) = some n ∧ word.length ≤ n

theorem integerLength?_of_mem {word : List Char} (h : word ∈ language .integer) :
    integerLength? word = some word.length := by
  obtain ⟨s, ds, hs, hds, rfl⟩ := mem_integer.mp h
  obtain ⟨d, rest, rfl⟩ := List.exists_cons_of_ne_nil hds.1
  have hd : d.isDigit = true := hds.2 d List.mem_cons_self
  have hall : digitsLength (d :: rest) = (d :: rest).length :=
    congrArg List.length (List.takeWhile_eq_self_iff.mpr hds.2)
  have hsign : signLength (s ++ d :: rest) = s.length := by
    rcases hs with rfl | rfl | rfl
    · -- a digit is no sign
      unfold signLength
      split <;> simp_all [Char.isDigit]
    · rfl
    · rfl
  rw [integerLength?_eq_some_iff, hsign, List.drop_left, hall, List.length_append]
  exact ⟨by simp, rfl⟩

theorem recognizes_integer : Recognizes integerLength? (language .integer) where
  take_mem h := by
    obtain ⟨s, ds, htake, hs, hds⟩ := exists_of_integerLength? h
    exact mem_integer.mpr ⟨s, ds, hs, hds, htake⟩
  longest rest h := by
    rw [integerLength?_append rest (integerLength?_of_mem h), if_pos rfl]
    exact ⟨_, rfl, Nat.le_add_right _ _⟩

theorem recognizes_decimal : Recognizes decimalLength? (language .decimal) where
  take_mem {cs n} h := by
    obtain ⟨whole, fraction, hwhole, hdrop, hpos, rfl⟩ := decimalLength?_eq_some_iff.mp h
    have hle := integerLength?_le hwhole
    refine mem_decimal.mpr ⟨_, _, recognizes_integer.take_mem hwhole, areDigits_take hpos, ?_⟩
    rw [Nat.add_assoc, List.take_add, hdrop, Nat.add_comm 1, List.take_succ_cons]
  longest rest h := by
    obtain ⟨whole, fraction, hwhole, hfraction, rfl⟩ := mem_decimal.mp h
    have hall : digitsLength fraction = fraction.length :=
      congrArg List.length (List.takeWhile_eq_self_iff.mpr hfraction.2)
    have hpos : fraction.length ≠ 0 := fun hzero => hfraction.1 (List.length_eq_zero_iff.mp hzero)
    -- the point ends the digits in front of it
    have hinteger : integerLength? (whole ++ '.' :: (fraction ++ rest)) = some whole.length := by
      rw [integerLength?_append _ (integerLength?_of_mem hwhole), if_pos rfl]
      rfl
    refine ⟨_, decimalLength?_eq_some_iff.mpr ⟨whole.length, fraction ++ rest, ?_, ?_, ?_, rfl⟩, ?_⟩
    · simpa using hinteger
    · simp
    · rw [digitsLength_append, if_pos hall]
      omega
    · rw [digitsLength_append, if_pos hall, List.length_append, List.length_cons]
      omega

theorem recognizes_identifier : Recognizes identifierLength? (language .identifier) where
  take_mem {cs n} h := by
    obtain _ | ⟨c, rest⟩ := cs
    · cases h
    simp only [identifierLength?, Option.ite_none_right_eq_some, Option.some.injEq] at h
    obtain ⟨hc, rfl⟩ := h
    refine mem_identifier.mpr ⟨c, rest.takeWhile isIdentifierPart, hc,
      fun d hd => List.mem_takeWhile_imp hd, ?_⟩
    rw [Nat.add_comm, List.take_succ_cons,
      ← List.prefix_iff_eq_take.mp (List.takeWhile_prefix isIdentifierPart)]
  longest rest h := by
    obtain ⟨c, part, hc, hpart, rfl⟩ := mem_identifier.mp h
    rw [List.cons_append, identifierLength?, if_pos hc, List.takeWhile_append_of_pos hpart]
    refine ⟨_, rfl, ?_⟩
    simp only [List.length_cons, List.length_append]
    omega

theorem isPlain_eq_true_iff {quote c : Char} :
    isPlain quote c = true ↔ ¬(c = quote ∨ c = '\\' ∨ c = '\n' ∨ c = '\r') := by
  simp [isPlain, and_assoc]

/-- The closing quote ends a character. -/
theorem characterLength?_append_of_mem {word : List Char} (h : word ∈ language .character)
    (rest : List Char) : characterLength? (word ++ rest) = some word.length := by
  obtain ⟨inner, hinner, rfl⟩ := mem_character.mp h
  rcases mem_quotable.mp hinner with ⟨c, hc, rfl⟩ | ⟨c, hc, rfl⟩
  · exact characterLength?_eq_some_iff.mpr (.inr ⟨c, rest, rfl, isPlain_eq_true_iff.mp hc, rfl⟩)
  · exact characterLength?_eq_some_iff.mpr (.inl ⟨c, rest, rfl, hc, rfl⟩)

theorem recognizes_character : Recognizes characterLength? (language .character) where
  take_mem {cs n} h := by
    rcases characterLength?_eq_some_iff.mp h with ⟨c, rest, rfl, hc, rfl⟩ | ⟨c, rest, rfl, hc, rfl⟩
    · exact mem_character.mpr ⟨['\\', c], mem_quotable.mpr (.inr ⟨c, hc, rfl⟩), rfl⟩
    · exact mem_character.mpr
        ⟨[c], mem_quotable.mpr (.inl ⟨c, isPlain_eq_true_iff.mpr hc, rfl⟩), rfl⟩
  longest rest h := ⟨_, characterLength?_append_of_mem h rest, le_rfl⟩

/-- The rest of a string is what can be quoted, and the closing quote. -/
theorem exists_of_stringRestLength? {cs : List Char} {n : Nat}
    (h : stringRestLength? cs = some n) :
    ∃ inner ∈ (quotable '"')∗, cs.take n = inner ++ ['"'] := by
  -- an escape takes two characters at once, hence the induction on the length
  induction hlength : cs.length using Nat.strong_induction_on generalizing cs n with
  | _ length ih =>
    subst hlength
    have hcons : ∀ {piece rest : List Char} {m : Nat}, piece ∈ quotable '"' →
        rest.length < cs.length → stringRestLength? rest = some m →
        ∃ inner ∈ (quotable '"')∗, (piece ++ rest).take (piece.length + m) = inner ++ ['"'] := by
      intro piece rest m hpiece hrest hm
      obtain ⟨inner, hinner, htake⟩ := ih rest.length hrest hm rfl
      obtain ⟨pieces, rfl, hpieces⟩ := Language.mem_kstar.mp hinner
      refine ⟨(piece :: pieces).flatten,
        Language.join_mem_kstar (List.forall_mem_cons.mpr ⟨hpiece, hpieces⟩), ?_⟩
      rw [List.take_length_add_append, htake, List.flatten_cons, List.append_assoc]
    obtain _ | ⟨c, cs⟩ := cs
    · cases h
    rw [stringRestLength?_cons] at h
    split_ifs at h with hquote hescape hline
    · cases h
      exact ⟨[], Language.nil_mem_kstar _, by simp [hquote]⟩
    · obtain _ | ⟨d, rest⟩ := cs
      · cases h
      simp only [Option.ite_none_right_eq_some, Option.map_eq_some_iff] at h
      obtain ⟨hd, m, hm, rfl⟩ := h
      subst hescape
      exact hcons (mem_quotable.mpr (.inr ⟨d, hd, rfl⟩))
        (by simp only [List.length_cons]; omega) hm
    · obtain ⟨m, hm, rfl⟩ := Option.map_eq_some_iff.mp h
      have hplain : isPlain '"' c = true :=
        isPlain_eq_true_iff.mpr (by simp_all)
      exact hcons (mem_quotable.mpr (.inl ⟨c, hplain, rfl⟩)) (by simp) hm

theorem stringRestLength?_append {inner : List Char} (h : inner ∈ (quotable '"')∗)
    (rest : List Char) :
    stringRestLength? (inner ++ '"' :: rest) = some (inner.length + 1) := by
  obtain ⟨pieces, rfl, hpieces⟩ := Language.mem_kstar.mp h
  clear h
  induction pieces with
  | nil => simp [stringRestLength?_cons]
  | cons piece pieces ih =>
    obtain ⟨hpiece, hpieces⟩ := List.forall_mem_cons.mp hpieces
    have ih := ih hpieces
    rcases mem_quotable.mp hpiece with ⟨c, hc, rfl⟩ | ⟨c, hc, rfl⟩
    · have hplain := isPlain_eq_true_iff.mp hc
      rw [List.flatten_cons, List.append_assoc, List.singleton_append, stringRestLength?_cons, ih]
      simp only [not_or] at hplain
      simp [hplain, Nat.add_comm, Nat.add_left_comm]
    · rw [List.flatten_cons, List.append_assoc, List.cons_append, List.singleton_append,
        stringRestLength?_cons]
      simp [hc, ih]
      omega

/-- The closing quote ends a string. -/
theorem stringLength?_append_of_mem {word : List Char} (h : word ∈ language .string)
    (rest : List Char) : stringLength? (word ++ rest) = some word.length := by
  obtain ⟨inner, hinner, rfl⟩ := mem_string.mp h
  refine stringLength?_eq_some_iff.mpr ⟨_, inner.length + 1, rfl, ?_, ?_⟩
  · simpa using stringRestLength?_append hinner rest
  · simp only [List.length_cons, List.length_append, List.length_nil]
    omega

theorem recognizes_string : Recognizes stringLength? (language .string) where
  take_mem {cs n} h := by
    obtain ⟨rest, m, rfl, hm, rfl⟩ := stringLength?_eq_some_iff.mp h
    obtain ⟨inner, hinner, htake⟩ := exists_of_stringRestLength? hm
    refine mem_string.mpr ⟨inner, hinner, ?_⟩
    rw [Nat.add_comm, List.take_succ_cons, htake]
  longest rest h := ⟨_, stringLength?_append_of_mem h rest, le_rfl⟩

theorem operatorLength?_eq_some_iff {cs : List Char} {n : Nat} :
    operatorLength? cs = some n ↔
      (∃ c d rest, cs = c :: d :: rest ∧ IsPair c d ∧ n = 2) ∨
      ∃ c rest, cs = c :: rest ∧ (∀ d, rest.head? = some d → ¬IsPair c d) ∧
        operatorCharacters.contains c = true ∧ n = 1 := by
  obtain _ | ⟨c, _ | ⟨d, rest⟩⟩ := cs
  · simp [operatorLength?]
  · simp [operatorLength?, eq_comm]
  · by_cases hpair : IsPair c d
    · have htwo : operatorLength? (c :: d :: rest) = some 2 := by
        rcases hpair with ⟨hc, rfl⟩ | ⟨rfl, rfl⟩ | ⟨rfl, rfl⟩
        · simp [operatorLength?, hc]
        · simp [operatorLength?]
        · simp [operatorLength?]
      rw [htwo]
      simp [hpair, eq_comm]
    · have hone : operatorLength? (c :: d :: rest) =
          if operatorCharacters.contains c then some 1 else none := by
        simp only [IsPair, not_or] at hpair
        simp [operatorLength?, hpair]
      rw [hone]
      simp [hpair, eq_comm]

theorem recognizes_operator : Recognizes operatorLength? (language .operator) where
  take_mem {cs n} h := by
    rcases operatorLength?_eq_some_iff.mp h with
      ⟨c, d, rest, rfl, hpair, rfl⟩ | ⟨c, rest, rfl, -, hc, rfl⟩
    · exact mem_operator.mpr (.inl ⟨c, d, hpair, rfl⟩)
    · exact mem_operator.mpr (.inr ⟨c, hc, rfl⟩)
  longest rest h := by
    rcases mem_operator.mp h with ⟨c, d, hpair, rfl⟩ | ⟨c, hc, rfl⟩
    · exact ⟨2, operatorLength?_eq_some_iff.mpr (.inl ⟨c, d, rest, rfl, hpair, rfl⟩), le_rfl⟩
    · by_cases hpair : ∃ d, rest.head? = some d ∧ IsPair c d
      · obtain ⟨d, hd, hpair⟩ := hpair
        obtain ⟨tail, rfl⟩ := List.head?_eq_some_iff.mp hd
        exact ⟨2, operatorLength?_eq_some_iff.mpr (.inl ⟨c, d, tail, rfl, hpair, rfl⟩), by simp⟩
      · simp only [not_exists, not_and] at hpair
        exact ⟨1, operatorLength?_eq_some_iff.mpr (.inr ⟨c, rest, rfl, hpair, hc, rfl⟩), le_rfl⟩

theorem recognizes_of_mem_classes {entry : TokenKind × (List Char → Option Nat)}
    (h : entry ∈ classes) : Recognizes entry.2 (language entry.1) := by
  simp only [classes, List.mem_cons, List.not_mem_nil, or_false] at h
  rcases h with rfl | rfl | rfl | rfl | rfl | rfl
  · exact recognizes_decimal
  · exact recognizes_integer
  · exact recognizes_identifier
  · exact recognizes_character
  · exact recognizes_string
  · exact recognizes_operator

/-! ### The token at the head of a text -/

section

variable {entry : TokenKind × (List Char → Option Nat)} {cs : List Char} {n : Nat}

theorem exists_mem_classes (kind : TokenKind) : ∃ length?, (kind, length?) ∈ classes := by
  cases kind <;> simp [classes]

theorem matches_iff_isSome (h : entry ∈ classes) :
    Matches entry.1 cs ↔ (entry.2 cs).isSome = true := by
  rw [Option.isSome_iff_exists]
  constructor
  · rintro ⟨word, hword, rest, rfl⟩
    obtain ⟨n, hn, -⟩ := (recognizes_of_mem_classes h).longest rest hword
    exact ⟨n, hn⟩
  · rintro ⟨n, hn⟩
    exact ⟨_, (recognizes_of_mem_classes h).take_mem hn, List.take_prefix _ _⟩

theorem isLongest_of_mem_classes (h : entry ∈ classes) (hn : entry.2 cs = some n) :
    IsLongest entry.1 (cs.take n) cs where
  mem := (recognizes_of_mem_classes h).take_mem hn
  isPrefix := List.take_prefix _ _
  longest := by
    rintro other hother ⟨rest, rfl⟩
    obtain ⟨m, hm, hle⟩ := (recognizes_of_mem_classes h).longest rest hother
    rw [hn] at hm
    cases hm
    have hlength := (isStable_of_mem_classes h).le_length hn
    rw [List.length_take]
    omega

/-- Two terminals of one rank are told apart by the first characters of their words. -/
theorem eq_of_matches {kind other : TokenKind} (h : Matches kind cs) (hother : Matches other cs)
    (hrank : priority kind = priority other) : kind = other := by
  obtain ⟨c, rest, rfl, hc⟩ := h.exists_starts
  obtain ⟨c', rest', heq, hc'⟩ := hother.exists_starts
  obtain ⟨rfl, rfl⟩ := List.cons.inj heq
  by_cases hsingle : c = '\''
  · subst hsingle
    rw [eq_character_of_starts hc, eq_character_of_starts hc']
  by_cases hdouble : c = '"'
  · subst hdouble
    rw [eq_string_of_starts hc, eq_string_of_starts hc']
  -- without the quotes, each rank has one terminal
  cases kind <;> cases other <;> simp_all [priority, starts]

theorem tokenAt?_eq_none_iff : tokenAt? cs = none ↔ ∀ kind, ¬Matches kind cs := by
  rw [tokenAt?, List.findSome?_eq_none_iff]
  simp only [Option.map_eq_none_iff, Prod.forall]
  constructor
  · intro h kind hmatches
    obtain ⟨length?, hmem⟩ := exists_mem_classes kind
    have hsome : (length? cs).isSome = true := (matches_iff_isSome hmem).mp hmatches
    rw [h kind length? hmem] at hsome
    cases hsome
  · intro h kind length? hmem
    rw [← Option.not_isSome_iff_eq_none, ← matches_iff_isSome hmem]
    exact h kind

/-- Classes that are tried later have no higher rank. -/
theorem pairwise_classes : classes.Pairwise fun a b => priority b.1 ≤ priority a.1 := by
  simp [classes, priority]

theorem isFirst_of_tokenAt? {kind : TokenKind} (h : tokenAt? cs = some (kind, n)) :
    IsFirst kind (cs.take n) cs := by
  obtain ⟨before, ⟨kind', length?⟩, behind, hsplit, hfound, hbefore⟩ :=
    List.findSome?_eq_some_iff.mp h
  obtain ⟨m, hm, heq⟩ := Option.map_eq_some_iff.mp hfound
  cases heq
  have hmem : (kind, length?) ∈ classes := by simp [hsplit]
  have hlongest := isLongest_of_mem_classes hmem hm
  refine ⟨hlongest, fun other hmatches hne => ?_⟩
  obtain ⟨length?', hother⟩ := exists_mem_classes other
  have hsome : (length?' cs).isSome = true := (matches_iff_isSome hother).mp hmatches
  have hrank := pairwise_classes
  rw [hsplit] at hother hrank
  rcases List.mem_append.mp hother with hfront | hrest
  · -- what is tried before has no word here
    have hnone : length?' cs = none := by simpa using hbefore _ hfront
    rw [hnone] at hsome
    cases hsome
  · rcases List.mem_cons.mp hrest with heq | hback
    · exact absurd (congrArg Prod.fst heq) hne
    · have hle : priority other ≤ priority kind :=
        List.rel_of_pairwise_cons (List.pairwise_append.mp hrank).2.1 hback
      refine lt_of_le_of_ne hle fun heq => hne ?_
      exact eq_of_matches hmatches ⟨_, hlongest.mem, hlongest.isPrefix⟩ heq

theorem IsFirst.matches {kind : TokenKind} {word : List Char} (h : IsFirst kind word cs) :
    Matches kind cs :=
  ⟨word, h.mem, h.isPrefix⟩

/-- There is one token at the head of a text at most. -/
theorem IsFirst.unique {kind kind' : TokenKind} {word word' : List Char}
    (h : IsFirst kind word cs) (h' : IsFirst kind' word' cs) : kind = kind' ∧ word = word' := by
  have hkind : kind = kind' := by
    by_contra hne
    have hlt := h.first kind' h'.matches (Ne.symm hne)
    have hlt' := h'.first kind h.matches hne
    omega
  subst hkind
  refine ⟨rfl, ?_⟩
  have hle := h.longest word' h'.mem h'.isPrefix
  have hle' := h'.longest word h.mem h.isPrefix
  exact (List.prefix_of_prefix_length_le h.isPrefix h'.isPrefix hle').eq_of_length_le hle

/-- The lexer finds the first terminal, as long as it goes. -/
theorem tokenAt?_eq_some_iff {kind : TokenKind} :
    tokenAt? cs = some (kind, n) ↔ ∃ word, IsFirst kind word cs ∧ word.length = n := by
  constructor
  · intro h
    refine ⟨cs.take n, isFirst_of_tokenAt? h, ?_⟩
    rw [List.length_take, Nat.min_eq_left (tokenAt?_le h)]
  · rintro ⟨word, hword, rfl⟩
    cases hfound : tokenAt? cs with
    | none => exact absurd hword.matches (tokenAt?_eq_none_iff.mp hfound kind)
    | some found =>
      obtain ⟨kind', m⟩ := found
      have hlength : (cs.take m).length = m := by
        rw [List.length_take, Nat.min_eq_left (tokenAt?_le hfound)]
      obtain ⟨rfl, rfl⟩ := hword.unique (isFirst_of_tokenAt? hfound)
      rw [hlength]

end

end Terminal

/-- The text of a token is a word of the terminal that it is a token of. -/
theorem Token.Lexed.mem_language {token : Token} (h : token.Lexed) :
    token.text.toList ∈ Terminal.language token.kind := by
  have hmem := (Terminal.isFirst_of_tokenAt? h).mem
  rwa [← String.length_toList, List.take_length] at hmem

end BlockScript

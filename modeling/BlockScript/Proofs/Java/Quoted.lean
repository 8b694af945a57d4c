import BlockScript.Java.Emission
import BlockScript.Java.Printer
import BlockScript.Json.Reader
import BlockScript.Proofs.Escape
import Mathlib
/-!
# Quoted literals in Java

Java reads a literal in two passes. The first one replaces every backslash with letters `u` and four
hexadecimal digits by the character of that number, unless the backslash is the second one of a
pair. The second one takes what is between the quotes for characters: a backslash goes with a letter
or with octal digits, and everything else stands for itself, except for the quote and the ends of
lines. So a text that was escaped once could be decoded twice, and a literal could end early.

Neither happens. The pairs that the emission writes are left alone by the first pass, and the second
one takes each of them for the character that it was written for.

## Main definitions

* `Java.unicodeTranslated?` — the first pass
* `Java.charactersUpTo?` — the second pass
* `Java.charactersOf?` — the characters of a literal

## Main results

* `Java.charactersOf?_string`, `Java.charactersOf?_character` — literals that are emitted
* `escaped_literals_read_back` — escaped texts in source texts and in Java
-/

namespace BlockScript

open Lexer Terminal Text

namespace Java

/-! ### Two passes -/

/-- What stands in front of a place in the first pass, as far as it matters. -/
inductive Pending where
  /-- Nothing that is still open. -/
  | nothing
  /-- A backslash that may begin the number of a character. -/
  | backslash
  /-- The number of a character, with some of its digits. -/
  | number (code digits : Nat)

/-- A text with its numbered characters in place of their numbers. A number is written as a
backslash, at least one `u` and four hexadecimal digits. -/
def unicodeTranslated? : Pending → List Char → Option (List Char)
  | .nothing, [] => some []
  | .backslash, [] => some ['\\']
  | .number _ _, [] => none
  | .nothing, c :: rest =>
    if c = '\\' then unicodeTranslated? .backslash rest
    else (unicodeTranslated? .nothing rest).map (c :: ·)
  | .backslash, c :: rest =>
    if c = 'u' then unicodeTranslated? (.number 0 0) rest
    else (unicodeTranslated? .nothing rest).map (['\\', c] ++ ·)
  | .number code digits, c :: rest =>
    if c = 'u' ∧ digits = 0 then unicodeTranslated? (.number 0 0) rest
    else match Json.hexValue? c with
      | none => none
      | some value =>
        if digits < 3 then unicodeTranslated? (.number (16 * code + value) (digits + 1)) rest
        else if (16 * code + value).isValidChar then
          (unicodeTranslated? .nothing rest).map (Char.ofNat (16 * code + value) :: ·)
        else none

/-- An octal digit. -/
def isOctalDigit (c : Char) : Bool :=
  '0' ≤ c && c ≤ '7'

/-- The character that is named behind a backslash, and how many characters name it: one letter, or
up to three octal digits, of which the first of three is at most `3`. -/
def namedCharacter? : List Char → Option (Char × Nat)
  | [] => none
  | 'b' :: _ => some ('\x08', 1)
  | 's' :: _ => some (' ', 1)
  | 't' :: _ => some ('\t', 1)
  | 'n' :: _ => some ('\n', 1)
  | 'f' :: _ => some ('\x0c', 1)
  | 'r' :: _ => some ('\r', 1)
  | '"' :: _ => some ('"', 1)
  | '\'' :: _ => some ('\'', 1)
  | '\\' :: _ => some ('\\', 1)
  | c :: rest =>
    let digits := ((c :: rest).takeWhile isOctalDigit).take (if c ≤ '3' then 3 else 2)
    if digits.isEmpty then none
    else
      let code := digits.foldl (fun code digit => 8 * code + (digit.toNat - '0'.toNat)) 0
      some (Char.ofNat code, digits.length)

/-- The characters up to the closing quote, which ends the text. The first `pending` characters
belong to a name that was found before. -/
def charactersUpTo? (quote : Char) (pending : Nat) : List Char → Option (List Char)
  | [] => none
  | c :: rest =>
    match pending with
    | pending + 1 => charactersUpTo? quote pending rest
    | 0 =>
      if c = quote then (if rest.isEmpty then some [] else none)
      else if c = '\n' ∨ c = '\r' then none
      else if c = '\\' then
        match namedCharacter? rest with
        | none => none
        | some (named, length) => (charactersUpTo? quote length rest).map (named :: ·)
      else (charactersUpTo? quote 0 rest).map (c :: ·)

/-- The characters of a literal. Between single quotes there is one. -/
def charactersOf? (text : String) : Option (List Char) :=
  match unicodeTranslated? .nothing text.toList with
  | some ('\'' :: rest) => (charactersUpTo? '\'' 0 rest).filter fun cs => cs.length = 1
  | some ('"' :: rest) => charactersUpTo? '"' 0 rest
  | _ => none

/-! ### What was escaped -/

section

variable {quote c d : Char}

/-- Java knows all letters that stand for something. -/
theorem namedCharacter?_of_escapedChar? (h : escapedChar? d = some c) (rest : List Char) :
    namedCharacter? (d :: rest) = some (c, 1) := by
  unfold escapedChar? at h
  split at h
  all_goals first | cases h; rfl | cases h

theorem unicodeTranslated?_backslash (hd : d ≠ 'u') (rest : List Char) :
    unicodeTranslated? .nothing ('\\' :: d :: rest) =
      (unicodeTranslated? .nothing rest).map (['\\', d] ++ ·) := by
  rw [unicodeTranslated?, if_pos rfl, unicodeTranslated?, if_neg hd]

theorem unicodeTranslated?_plain (hc : c ≠ '\\') (rest : List Char) :
    unicodeTranslated? .nothing (c :: rest) =
      (unicodeTranslated? .nothing rest).map ([c] ++ ·) := by
  rw [unicodeTranslated?, if_neg hc]
  rfl

/-- The first pass leaves an escaped character alone: no letter that it is written with is a `u`. -/
theorem unicodeTranslated?_escapeChar (hquote : quote = '\'' ∨ quote = '"') (c : Char)
    (rest : List Char) :
    unicodeTranslated? .nothing (escapeChar (some quote) c ++ rest) =
      (unicodeTranslated? .nothing rest).map (escapeChar (some quote) c ++ ·) := by
  rcases escapeChar_cases hquote c with ⟨hplain, hc⟩ | ⟨d, hescape, hd⟩
  · rw [hplain]
    exact unicodeTranslated?_plain (fun heq => isPlain_eq_true_iff.mp hc (.inr (.inl heq))) rest
  · rw [hescape]
    refine unicodeTranslated?_backslash ?_ rest
    rintro rfl
    cases hd

/-- The first pass leaves an escaped text alone. -/
theorem unicodeTranslated?_escape (hquote : quote = '\'' ∨ quote = '"') (cs : List Char) :
    let literal := quote :: (cs.flatMap (escapeChar (some quote)) ++ [quote])
    unicodeTranslated? .nothing literal = some literal := by
  have hne : quote ≠ '\\' := by
    rintro rfl
    simp at hquote
  have hinside : unicodeTranslated? .nothing (cs.flatMap (escapeChar (some quote)) ++ [quote]) =
      some (cs.flatMap (escapeChar (some quote)) ++ [quote]) := by
    induction cs with
    | nil => rw [List.flatMap_nil, List.nil_append, unicodeTranslated?_plain hne]; rfl
    | cons c cs ih =>
      rw [List.flatMap_cons, List.append_assoc, unicodeTranslated?_escapeChar hquote, ih]
      rfl
  intro literal
  rw [unicodeTranslated?_plain hne, hinside]
  rfl

/-- The second pass takes an escaped character for the character. -/
theorem charactersUpTo?_escapeChar (hquote : quote = '\'' ∨ quote = '"') (c : Char)
    (rest : List Char) :
    charactersUpTo? quote 0 (escapeChar (some quote) c ++ rest) =
      (charactersUpTo? quote 0 rest).map (c :: ·) := by
  rcases escapeChar_cases hquote c with ⟨hplain, hc⟩ | ⟨d, hescape, hd⟩
  · have hordinary := isPlain_eq_true_iff.mp hc
    simp only [not_or] at hordinary
    obtain ⟨hne, hbackslash, hline, hreturn⟩ := hordinary
    rw [hplain, List.singleton_append, charactersUpTo?, if_neg hne,
      if_neg (not_or.mpr ⟨hline, hreturn⟩), if_neg hbackslash]
  · have hne : '\\' ≠ quote := by
      rintro rfl
      simp at hquote
    rw [hescape]
    simp only [List.cons_append, List.nil_append]
    rw [charactersUpTo?, if_neg hne, if_neg (by decide), if_pos rfl,
      namedCharacter?_of_escapedChar? hd]
    rfl

/-- The second pass takes an escaped text for the text. -/
theorem charactersUpTo?_escape (hquote : quote = '\'' ∨ quote = '"') (cs : List Char) :
    charactersUpTo? quote 0 (cs.flatMap (escapeChar (some quote)) ++ [quote]) = some cs := by
  induction cs with
  | nil => rw [List.flatMap_nil, List.nil_append, charactersUpTo?, if_pos rfl]; rfl
  | cons c cs ih =>
    rw [List.flatMap_cons, List.append_assoc, charactersUpTo?_escapeChar hquote, ih]
    rfl

end

/-- A string that is emitted has its own characters in Java. -/
theorem charactersOf?_string (value : String) :
    charactersOf? (Scalar.string value).javaLiteral = some value.toList := by
  have htext : (Scalar.string value).javaLiteral.toList =
      '"' :: (value.toList.flatMap (escapeChar (some '"')) ++ ['"']) := by
    simp [Scalar.javaLiteral, escape]
  rw [charactersOf?, htext, unicodeTranslated?_escape (.inr rfl)]
  exact charactersUpTo?_escape (.inr rfl) value.toList

/-- A character that is emitted is itself in Java. -/
theorem charactersOf?_character (c : Char) :
    charactersOf? (Scalar.character c.toString).javaLiteral = some [c] := by
  have htext : (Scalar.character c.toString).javaLiteral.toList =
      '\'' :: ([c].flatMap (escapeChar (some '\'')) ++ ['\'']) := by
    simp [Scalar.javaLiteral, escape]
  rw [charactersOf?, htext, unicodeTranslated?_escape (.inl rfl)]
  simp only [charactersUpTo?_escape (.inl rfl) [c]]
  rfl

end Java

/-! ### There and back -/

/-- The literal of a string in a source text. -/
theorem string_reads_back (value : String) :
    let text := "\"" ++ escape (some '"') value ++ "\""
    tokenize text = .ok [⟨.string, text, 0⟩] ∧
      parseExpression text = .ok (.literal (.string value) none, 1) := by
  intro text
  have hword : text.toList ∈ language .string :=
    mem_string.mpr ⟨_, escape_mem_quotable (.inr rfl) value, by simp [text]⟩
  obtain ⟨-, htokens⟩ := tokenize_quoted (.inr rfl) hword
  rw [String.ofList_toList] at htokens
  have hinside : Parser.inside text = escape (some '"') value := by
    simp [Parser.inside, text]
  have hliteral : Grammar.Literal ⟨.string, text, 0⟩ (.string (unescape (Parser.inside text))) :=
    .string rfl
  rw [hinside, unescape_escape (.inr rfl)] at hliteral
  exact ⟨htokens, parseExpression_of_literal htokens hliteral⟩

/-- The literal of a character in a source text. -/
theorem character_reads_back (c : Char) :
    let text := "'" ++ escape (some '\'') c.toString ++ "'"
    tokenize text = .ok [⟨.character, text, 0⟩] ∧
      parseExpression text = .ok (.literal (.character c.toString) none, 1) := by
  intro text
  have hword : text.toList ∈ language .character :=
    mem_character.mpr ⟨_, escapeChar_mem_quotable (.inl rfl) c, by simp [text, escape]⟩
  obtain ⟨-, htokens⟩ := tokenize_quoted (.inl rfl) hword
  rw [String.ofList_toList] at htokens
  have hinside : Parser.inside text = escape (some '\'') c.toString := by
    simp [Parser.inside, text]
  have hliteral : Grammar.Literal ⟨.character, text, 0⟩
      (.character (unescape (Parser.inside text))) :=
    .character rfl
  rw [hinside, unescape_escape (.inl rfl)] at hliteral
  exact ⟨htokens, parseExpression_of_literal htokens hliteral⟩

/-- An escaped text between its quotes is one token, and is parsed as the text. Reading it gives the
text, there is no end of a line in it, and no quote that would end it early. The Java literal that a
string or a character of a source is emitted as has the characters that the source means. -/
theorem escaped_literals_read_back :
    (∀ value : String, let text := "\"" ++ escape (some '"') value ++ "\""
      tokenize text = .ok [⟨.string, text, 0⟩] ∧
        parseExpression text = .ok (.literal (.string value) none, 1)) ∧
    (∀ c : Char, let text := "'" ++ escape (some '\'') c.toString ++ "'"
      tokenize text = .ok [⟨.character, text, 0⟩] ∧
        parseExpression text = .ok (.literal (.character c.toString) none, 1)) ∧
    (∀ quote, quote = '\'' ∨ quote = '"' → ∀ value : String,
      let text := escape (some quote) value
      unescape text = value ∧ (∀ c ∈ text.toList, c ≠ '\n' ∧ c ≠ '\r') ∧
        QuotesEscaped quote text.toList) ∧
    ∀ source tokens, tokenize source = .ok tokens → ∀ token ∈ tokens,
      (token.kind = .string → ∃ value, Parser.literal? token = some (.string value) ∧
        ∀ type, ∃ java, emitExpression (.literal (.string value) type) = .ok java ∧
          Java.charactersOf? java.text = some value.toList) ∧
      (token.kind = .character → ∃ c : Char,
        Parser.literal? token = some (.character c.toString) ∧
        ∀ type, ∃ java, emitExpression (.literal (.character c.toString) type) = .ok java ∧
          Java.charactersOf? java.text = some [c]) := by
  refine ⟨string_reads_back, character_reads_back, ?_, ?_⟩
  · intro quote hquote value text
    have hpieces := escape_mem_quotable hquote value
    have hne : quote ≠ '\\' := by
      rintro rfl
      simp at hquote
    exact ⟨unescape_escape hquote value, ne_line_of_quotable hpieces,
      (quotesEscaped_of_quotable hne hpieces).1⟩
  · intro source tokens htokens token htoken
    have hlexed := Token.lexed_of_tokenize htokens token htoken
    constructor
    · intro hkind
      refine ⟨_, Parser.literal?_of_literal hlexed (.string hkind), fun type => ?_⟩
      exact ⟨_, rfl, Java.charactersOf?_string _⟩
    · intro hkind
      obtain ⟨c, hc⟩ := hlexed.exists_character hkind
      have hliteral := Parser.literal?_of_literal hlexed (.character hkind)
      rw [hc] at hliteral
      exact ⟨c, hliteral, fun type => ⟨_, rfl, Java.charactersOf?_character c⟩⟩

/-- A backslash in front of a number of a character stays two characters in Java, and a quote behind
backslashes does not end the literal. -/
theorem escaped_literals_read_back_number :
    QuotesEscaped '"' (escape (some '"') "\\u0041\\\"").toList ∧
    ∃ value, Parser.literal? ⟨.string, "\"\\\\u0041\"", 0⟩ = some (.string value) ∧
      ∃ java, emitExpression (.literal (.string value) none) = .ok java ∧
        Java.charactersOf? java.text = some value.toList := by
  obtain ⟨-, -, hquotes, htokens⟩ := escaped_literals_read_back
  have hsource : tokenize "\"\\\\u0041\"" = .ok [⟨.string, "\"\\\\u0041\"", 0⟩] := by
    cbv
  obtain ⟨value, hvalue, hjava⟩ := (htokens _ _ hsource _ List.mem_cons_self).1 rfl
  exact ⟨(hquotes '"' (.inr rfl) _).2.2, value, hvalue, hjava none⟩

end BlockScript

import BlockScript.Java.Printer
import BlockScript.Proofs.Java.Grammar
import BlockScript.Proofs.Numeral
/-!
# The lexemes of printed expressions

How a text is split into the lexemes of Java, as far as expressions need it: the longest piece that
makes a lexeme is taken, and blanks are skipped. A printed expression is split just where its parts
meet, so that its lexemes can be listed along its form.

## Main definitions

* `Java.isWord` — texts that are names in Java, qualified or not
* `Java.lexemesOfText?` — the lexemes of a text
* `Java.Expression.lexemes` — the lexemes of an expression, part by part
* `Java.Expression.IsLexical` — expressions with names and operators of Java

## Main results

* `Java.Expression.lexemesOfText?_text` — the printed expression has these lexemes
-/

namespace BlockScript.Java

/-! ### Splitting a text -/

/-- Whether a name can go on with a character; qualified names have points. -/
def isWordPart (c : Char) : Bool :=
  c.isAlphanum || c == '_' || c == '$' || c == '.'

/-- Whether a name can begin with a character. -/
def isWordStart (c : Char) : Bool :=
  !c.isDigit && c != '.' && isWordPart c

/-- Whether a text is a name, qualified or not. -/
def isWord (text : String) : Bool :=
  match text.toList with
  | [] => false
  | c :: rest => isWordStart c && rest.all isWordPart

/-- The characters of operators. -/
def operatorCharacters : List Char :=
  ['&', '|', '<', '>', '=', '!', '+', '-', '*', '/', '^']

/-- Whether a character belongs to an operator. -/
def isOperatorCharacter (c : Char) : Bool :=
  operatorCharacters.contains c

/-- Whether a character belongs to a number in front of its power of ten. -/
def isMantissaPart (c : Char) : Bool :=
  c.isDigit || c == '.'

/-- The lexemes of one character. -/
def Lexeme.ofMark? : Char → Option Lexeme
  | ',' => some .comma
  | '(' => some .opening
  | ')' => some .closing
  | '[' => some .openingBracket
  | ']' => some .closingBracket
  | '\x7b' => some .openingBrace
  | '\x7d' => some .closingBrace
  | _ => none

/-- The number at the head of a text: digits and points, and a power of ten with a sign. -/
def numeralAt (cs : List Char) : List Char :=
  match cs.dropWhile isMantissaPart with
  | 'E' :: sign :: rest =>
    if sign = '+' ∨ sign = '-' then
      cs.takeWhile isMantissaPart ++ 'E' :: sign :: rest.takeWhile Char.isDigit
    else cs.takeWhile isMantissaPart
  | _ => cs.takeWhile isMantissaPart

/-- The rest of a quoted text up to its closing quote. A character behind a backslash does not
close it. -/
def quotedRest? (quote : Char) : List Char → Option (List Char)
  | [] => none
  | [c] => if c = quote then some [c] else none
  | c :: d :: rest =>
    if c = quote then some [c]
    else if c = '\\' then (quotedRest? quote rest).map (c :: d :: ·)
    else (quotedRest? quote (d :: rest)).map (c :: ·)

/-- The lexeme at the head of a text, with its piece of the text. -/
def lexemeAt? : List Char → Option (List Char × Lexeme)
  | [] => none
  | c :: rest =>
    match Lexeme.ofMark? c with
    | some mark => some ([c], mark)
    | none =>
      if c = '\'' ∨ c = '"' then
        (quotedRest? c rest).map fun piece => (c :: piece, .quoted (String.ofList (c :: piece)))
      else if c.isDigit then
        let piece := numeralAt (c :: rest)
        some (piece, .numeral (String.ofList piece))
      else if isWordStart c then
        let piece := c :: rest.takeWhile isWordPart
        some (piece, .word (String.ofList piece))
      else
        let piece := (c :: rest).takeWhile isOperatorCharacter
        (Operator.ofText? (String.ofList piece)).map fun op => (piece, .operator op.text)

/-- The lexemes of a text whose first `pending` characters belong to a lexeme that was found
before. -/
def lexemesFrom? (pending : Nat) : List Char → Option (List Lexeme)
  | [] => some []
  | c :: rest =>
    match pending with
    | pending + 1 => lexemesFrom? pending rest
    | 0 =>
      if c = ' ' then lexemesFrom? 0 rest
      else match lexemeAt? (c :: rest) with
        | none => none
        | some (piece, lexeme) => (lexemesFrom? (piece.length - 1) rest).map (lexeme :: ·)

/-- The lexemes of a text. -/
def lexemesOfText? (text : String) : Option (List Lexeme) :=
  lexemesFrom? 0 text.toList

/-! ### Lexemes of expressions -/

/-- A number as a term; a leading minus sign is an operator in Java. -/
def Term.ofNumeral (text : String) : Term :=
  match text.toList with
  | '-' :: digits => .negative (String.ofList digits)
  | _ => .numeral text

/-- A literal as a term. -/
def Term.ofScalar : Scalar → Term
  | .integer value => .ofNumeral (toString value)
  | .decimal value => .ofNumeral value.text
  | .character value => .quoted (Scalar.character value).javaLiteral
  | .string value => .quoted (Scalar.string value).javaLiteral
  | other => .word other.text

namespace Expression

mutual

/-- The lexemes of an expression, part by part. -/
def lexemes : Expression → List Lexeme
  | literal value => (Term.ofScalar value).lexemes
  | name identifier => [.word identifier]
  | element array index => .word array :: .openingBracket :: (index.lexemes ++ [.closingBracket])
  | call function arguments =>
    .word function :: .opening :: (separated (lexemesOf arguments) ++ [.closing])
  | binary symbol left right => left.lexemes ++ .operator symbol :: right.lexemes
  | power base exponent =>
    .opening :: .word "int" :: .closing :: .word "Math.pow" :: .opening ::
      (separated [base.lexemes, exponent.lexemes] ++ [.closing])
  | parentheses inner => .opening :: (inner.lexemes ++ [.closing])
  | braces values => .openingBrace :: (separated (lexemesOf values) ++ [.closingBrace])

/-- The lexemes of several expressions. -/
def lexemesOf : List Expression → List (List Lexeme)
  | [] => []
  | expression :: rest => expression.lexemes :: lexemesOf rest

end

mutual

/-- Whether the names of an expression are names in Java, and its operators are operators. -/
def IsLexical : Expression → Prop
  | literal _ => True
  | name identifier => isWord identifier
  | element array index => isWord array ∧ index.IsLexical
  | call function arguments => isWord function ∧ AreLexical arguments
  | binary symbol left right => (∃ op : Operator, symbol = op.text) ∧ left.IsLexical ∧ right.IsLexical
  | power base exponent => base.IsLexical ∧ exponent.IsLexical
  | parentheses inner => inner.IsLexical
  | braces values => AreLexical values

/-- Whether the names and operators of several expressions are names and operators in Java. -/
def AreLexical : List Expression → Prop
  | [] => True
  | expression :: rest => expression.IsLexical ∧ AreLexical rest

end

end Expression

/-! ### One lexeme -/

/-- The lexemes at the head of a text, with the text behind them. -/
def Scans (cs : List Char) (lexemes : List Lexeme) (rest : List Char) : Prop :=
  ∀ ⦃more⦄, lexemesFrom? 0 rest = some more → lexemesFrom? 0 cs = some (lexemes ++ more)

namespace Scans

variable {cs middle rest : List Char} {first second : List Lexeme}

theorem refl (cs : List Char) : Scans cs [] cs :=
  fun _ h => h

theorem trans (h : Scans cs first middle) (h' : Scans middle second rest) :
    Scans cs (first ++ second) rest := by
  intro more hmore
  rw [List.append_assoc]
  exact h (h' hmore)

theorem blank (h : Scans cs first rest) : Scans (' ' :: cs) first rest := by
  intro more hmore
  rw [lexemesFrom?, if_pos rfl]
  exact h hmore

end Scans

/-- Characters that end every name, number and operator in front of them. -/
def delimiters : List Char :=
  [' ', ',', '(', ')', '[', ']', '\x7b', '\x7d']

/-- A text that does not go on the lexeme in front of it. -/
def Ends (rest : List Char) : Prop :=
  ∀ c ∈ rest.head?, c ∈ delimiters

theorem ends_nil : Ends [] := by
  simp [Ends]

theorem ends_cons {c : Char} {rest : List Char} (h : c ∈ delimiters) : Ends (c :: rest) := by
  simpa [Ends] using h

/-- The longest piece of a class of characters ends where another text begins. -/
theorem takeWhile_append_of_head {p : Char → Bool} {cs rest : List Char} (hcs : ∀ c ∈ cs, p c = true)
    (hrest : ∀ c ∈ rest.head?, p c = false) : (cs ++ rest).takeWhile p = cs := by
  have hnil : rest.takeWhile p = [] := by
    cases rest with
    | nil => rfl
    | cons c rest => exact List.takeWhile_cons_of_neg (by simp [hrest c rfl])
  rw [List.takeWhile_append_of_pos hcs, hnil, List.append_nil]

/-- A piece that was found is skipped. -/
theorem lexemesFrom?_length (piece rest : List Char) :
    lexemesFrom? piece.length (piece ++ rest) = lexemesFrom? 0 rest := by
  induction piece with
  | nil => rfl
  | cons c piece ih => exact ih

theorem scans_piece {c : Char} {piece rest : List Char} {lexeme : Lexeme} (hc : c ≠ ' ')
    (h : lexemeAt? (c :: piece ++ rest) = some (c :: piece, lexeme)) :
    Scans (c :: piece ++ rest) [lexeme] rest := by
  intro more hmore
  rw [List.cons_append] at h ⊢
  rw [lexemesFrom?, if_neg hc, h]
  simp only [List.length_cons, Nat.add_sub_cancel, lexemesFrom?_length, hmore]
  rfl

theorem scans_mark {c : Char} {mark : Lexeme} (h : Lexeme.ofMark? c = some mark)
    (rest : List Char) : Scans (c :: rest) [mark] rest := by
  have hc : c ≠ ' ' := by
    rintro rfl
    cases h
  have hpiece : lexemeAt? ([c] ++ rest) = some ([c], mark) := by
    simp only [List.cons_append, List.nil_append, lexemeAt?, h]
  exact scans_piece hc hpiece

theorem ofMark?_eq_none {c : Char} (h : c ∉ delimiters) : Lexeme.ofMark? c = none := by
  unfold Lexeme.ofMark?
  split <;> first | rfl | exact absurd (by decide) h

/-- A class of characters that has no delimiters. -/
theorem not_mem_delimiters {p : Char → Bool} {c : Char} (hp : delimiters.any p = false)
    (h : p c = true) : c ∉ delimiters :=
  fun hmem => List.any_eq_false.mp hp c hmem h

theorem ne_of_class {p : Char → Bool} {c d : Char} (hd : p d = false) (h : p c = true) : c ≠ d := by
  rintro rfl
  rw [hd] at h
  cases h

/-- What ends a lexeme is in no class that has no delimiters. -/
theorem Ends.head_eq_false {rest : List Char} (h : Ends rest) {p : Char → Bool}
    (hp : delimiters.any p = false) : ∀ c ∈ rest.head?, p c = false :=
  fun c hc => Bool.eq_false_iff.mpr (List.any_eq_false.mp hp c (h c hc))

theorem scans_word {text : String} (h : isWord text = true) (rest : List Char) (hrest : Ends rest) :
    Scans (text.toList ++ rest) [.word text] rest := by
  obtain ⟨c, piece, htext⟩ : ∃ c piece, text.toList = c :: piece := by
    cases htext : text.toList with
    | nil => simp [isWord, htext] at h
    | cons c piece => exact ⟨c, piece, rfl⟩
  simp only [isWord, htext, Bool.and_eq_true, List.all_eq_true] at h
  obtain ⟨hstart, hpiece⟩ := h
  have hdigit : c.isDigit = false := by
    simp only [isWordStart, Bool.and_eq_true, Bool.not_eq_true'] at hstart
    exact hstart.1.1
  have hmark := ofMark?_eq_none (not_mem_delimiters (p := isWordStart) (by decide) hstart)
  have hquote : ¬(c = '\'' ∨ c = '"') := by
    rintro (rfl | rfl) <;> exact absurd hstart (by decide)
  have htake := takeWhile_append_of_head hpiece (hrest.head_eq_false (p := isWordPart) (by decide))
  rw [htext]
  refine scans_piece (ne_of_class (p := isWordStart) (by decide) hstart) ?_
  simp only [List.cons_append, lexemeAt?, hmark, if_neg hquote, hdigit, Bool.false_eq_true,
    if_false, hstart, if_true, htake]
  rw [← htext, String.ofList_toList]

theorem scans_operator (op : Operator) (rest : List Char)
    (hrest : ∀ c ∈ rest.head?, isOperatorCharacter c = false) :
    Scans (op.text.toList ++ rest) [.operator op.text] rest := by
  obtain ⟨c, piece, htext, hc, hmark, hquote, hdigit, hstart⟩ : ∃ c piece,
      op.text.toList = c :: piece ∧ c ≠ ' ' ∧ Lexeme.ofMark? c = none ∧ ¬(c = '\'' ∨ c = '"') ∧
        c.isDigit = false ∧ isWordStart c = false := by
    cases op <;> exact ⟨_, _, rfl, by decide⟩
  have hall : op.text.toList.all isOperatorCharacter = true := by
    cases op <;> decide
  have htake := takeWhile_append_of_head (List.all_eq_true.mp hall) hrest
  rw [htext] at htake ⊢
  refine scans_piece hc ?_
  simp only [List.cons_append] at htake ⊢
  simp only [lexemeAt?, hmark, if_neg hquote, hdigit, hstart, Bool.false_eq_true, if_false, htake]
  rw [← htext, String.ofList_toList, Operator.ofText?_text]
  rfl

/-! ### Literals -/

section

variable {whole fraction power rest : List Char} {e : Int}

theorem isMantissaPart_of_mem (hwhole : AreDigits whole)
    (hfraction : ∀ c ∈ fraction, c.isDigit = true) :
    ∀ c ∈ whole ++ Decimal.pointed fraction, isMantissaPart c = true := by
  intro c hc
  rw [isMantissaPart, Bool.or_eq_true, beq_iff_eq]
  rcases List.mem_append.mp hc with hc | hc
  · exact .inl (hwhole.2 c hc)
  unfold Decimal.pointed at hc
  split at hc
  next => cases hc
  next =>
    rcases List.mem_cons.mp hc with rfl | hc
    · exact .inr rfl
    · exact .inl (hfraction c hc)

/-- All of a number is taken. -/
theorem numeralAt_append (hwhole : AreDigits whole)
    (hfraction : ∀ c ∈ fraction, c.isDigit = true) (hpower : Decimal.IsPower power e)
    (hrest : Ends rest) :
    numeralAt (whole ++ (Decimal.pointed fraction ++ power) ++ rest) =
      whole ++ (Decimal.pointed fraction ++ power) := by
  have hmantissa := isMantissaPart_of_mem hwhole hfraction
  have hbehind : ∀ c ∈ (power ++ rest).head?, isMantissaPart c = false := by
    cases hpower with
    | none => exact hrest.head_eq_false (by decide)
    | positive _ | negative _ => simp [isMantissaPart]
  have htake := takeWhile_append_of_head hmantissa hbehind
  have hdrop : (whole ++ Decimal.pointed fraction ++ (power ++ rest)).dropWhile isMantissaPart =
      power ++ rest := by
    have hsplit := List.takeWhile_append_dropWhile (p := isMantissaPart)
      (l := whole ++ Decimal.pointed fraction ++ (power ++ rest))
    rw [htake] at hsplit
    exact List.append_cancel_left hsplit
  have hdigits : ∀ {digits : List Char}, AreDigits digits →
      (digits ++ rest).takeWhile Char.isDigit = digits :=
    fun h => takeWhile_append_of_head h.2 (hrest.head_eq_false (by decide))
  have hcs : whole ++ (Decimal.pointed fraction ++ power) ++ rest =
      whole ++ Decimal.pointed fraction ++ (power ++ rest) := by simp
  rw [hcs, numeralAt, hdrop, htake]
  cases hpower with
  | none =>
    rw [List.nil_append, List.append_nil]
    split
    next sign others => exact absurd (hrest 'E' rfl) (by decide)
    next => rfl
  | positive h => simp [hdigits h]
  | negative h => simp [hdigits h]

/-- A number without a sign is one lexeme. -/
theorem scans_numeral (hwhole : AreDigits whole) (hfraction : ∀ c ∈ fraction, c.isDigit = true)
    (hpower : Decimal.IsPower power e) (hrest : Ends rest) :
    Scans (whole ++ (Decimal.pointed fraction ++ power) ++ rest)
      [.numeral (String.ofList (whole ++ (Decimal.pointed fraction ++ power)))] rest := by
  have hpiece := numeralAt_append hwhole hfraction hpower hrest
  obtain ⟨c, others, rfl⟩ := List.exists_cons_of_ne_nil hwhole.1
  have hdigit := hwhole.2 c List.mem_cons_self
  have hmark := ofMark?_eq_none (not_mem_delimiters (p := Char.isDigit) (by decide) hdigit)
  have hquote : ¬(c = '\'' ∨ c = '"') := by
    rintro (rfl | rfl) <;> exact absurd hdigit (by decide)
  refine scans_piece (ne_of_isDigit hdigit (by decide)) ?_
  simp only [List.cons_append, List.append_eq] at hpiece ⊢
  simp only [lexemeAt?, hmark, if_neg hquote, hdigit, if_true, hpiece]

end

theorem quotedRest?_backslash {quote : Char} (hquote : quote ≠ '\\') (c : Char) (rest : List Char) :
    quotedRest? quote ('\\' :: c :: rest) =
      (quotedRest? quote rest).map (['\\', c] ++ ·) := by
  rw [quotedRest?, if_neg hquote.symm, if_pos rfl]
  rfl

theorem quotedRest?_cons {quote c : Char} (hquote : c ≠ quote) (hc : c ≠ '\\')
    {rest : List Char} (hrest : rest ≠ []) :
    quotedRest? quote (c :: rest) = (quotedRest? quote rest).map ([c] ++ ·) := by
  obtain ⟨d, rest, rfl⟩ := List.exists_cons_of_ne_nil hrest
  rw [quotedRest?, if_neg hquote, if_neg hc]
  rfl

/-- An escaped character is taken as one, and does not close the text. -/
theorem quotedRest?_escapeChar {quote : Char} (hquote : quote ≠ '\\') (c : Char)
    {rest : List Char} (hrest : rest ≠ []) :
    quotedRest? quote (Text.escapeChar (some quote) c ++ rest) =
      (quotedRest? quote rest).map (Text.escapeChar (some quote) c ++ ·) := by
  unfold Text.escapeChar
  split
  next => exact quotedRest?_backslash hquote c rest
  next hc =>
    split
    all_goals first
      | exact quotedRest?_backslash hquote _ rest
      | exact quotedRest?_cons (fun h => hc (by rw [h])) (by assumption) hrest

/-- An escaped text ends at the closing quote. -/
theorem quotedRest?_escape {quote : Char} (hquote : quote ≠ '\\') (value rest : List Char) :
    quotedRest? quote (value.flatMap (Text.escapeChar (some quote)) ++ quote :: rest) =
      some (value.flatMap (Text.escapeChar (some quote)) ++ [quote]) := by
  induction value with
  | nil => cases rest <;> simp [quotedRest?]
  | cons c value ih =>
    rw [List.flatMap_cons, List.append_assoc, quotedRest?_escapeChar hquote c (by simp), ih,
      Option.map_some, List.append_assoc]

/-- A text between quotes is one lexeme. -/
theorem scans_quoted {quote : Char} (hquote : quote = '\'' ∨ quote = '"') (value : String)
    (rest : List Char) :
    Scans (quote :: (Text.escape (some quote) value).toList ++ quote :: rest)
      [.quoted (String.ofList (quote :: (Text.escape (some quote) value).toList ++ [quote]))]
      rest := by
  have hbackslash : quote ≠ '\\' := by
    rintro rfl
    simp at hquote
  have hends := quotedRest?_escape hbackslash value.toList rest
  have hmark : Lexeme.ofMark? quote = none := by
    obtain rfl | rfl := hquote <;> rfl
  have hblank : quote ≠ ' ' := by
    obtain rfl | rfl := hquote <;> decide
  have hcs : quote :: (Text.escape (some quote) value).toList ++ quote :: rest =
      quote :: ((Text.escape (some quote) value).toList ++ [quote]) ++ rest := by simp
  rw [hcs]
  refine scans_piece hblank ?_
  rw [← hcs]
  simp only [List.cons_append, lexemeAt?, hmark, if_pos hquote, Text.escape, String.toList_ofList,
    hends, Option.map_some]

theorem isOperatorCharacter_of_isDigit {c : Char} (h : c.isDigit = true) :
    isOperatorCharacter c = false := by
  have hnone : operatorCharacters.any Char.isDigit = false := by decide
  rw [isOperatorCharacter, List.contains_eq_mem, decide_eq_false_iff_not]
  exact fun hmem => List.any_eq_false.mp hnone c hmem h

/-- A number with or without a sign is scanned as its term. -/
theorem scans_ofNumeral {text : String} {negative : Bool} {whole fraction power rest : List Char}
    {e : Int} (hwhole : AreDigits whole) (hfraction : ∀ c ∈ fraction, c.isDigit = true)
    (hpower : Decimal.IsPower power e) (htext : text.toList =
      (if negative then ['-'] else []) ++ (whole ++ (Decimal.pointed fraction ++ power)))
    (hrest : Ends rest) : Scans (text.toList ++ rest) (Term.ofNumeral text).lexemes rest := by
  have hnumeral := scans_numeral hwhole hfraction hpower hrest
  obtain ⟨c, others, rfl⟩ := List.exists_cons_of_ne_nil hwhole.1
  have hdigit := hwhole.2 c List.mem_cons_self
  cases negative with
  | true =>
    have hoperator := isOperatorCharacter_of_isDigit hdigit
    have hminus := scans_operator .minus (c :: others ++ (Decimal.pointed fraction ++ power) ++ rest)
      (by simpa using hoperator)
    have hterm : (Term.ofNumeral text).lexemes = [.operator Operator.minus.text] ++
        [.numeral (String.ofList (c :: others ++ (Decimal.pointed fraction ++ power)))] := by
      simp [Term.ofNumeral, htext, Term.lexemes]
    rw [hterm, htext, if_pos rfl, List.append_assoc]
    exact hminus.trans hnumeral
  | false =>
    rw [if_neg Bool.false_ne_true, List.nil_append] at htext
    have hterm : Term.ofNumeral text = .numeral text := by
      unfold Term.ofNumeral
      split
      · rename_i hminus
        rw [htext] at hminus
        exact absurd (List.cons.inj hminus).1 (ne_of_isDigit hdigit (by decide))
      · rfl
    rw [← htext, String.ofList_toList] at hnumeral
    rwa [hterm]

theorem scans_literal (value : Scalar) {rest : List Char} (hrest : Ends rest) :
    Scans (value.javaLiteral.toList ++ rest) (Term.ofScalar value).lexemes rest := by
  cases value with
  | nil => exact scans_word (by decide : isWord "null" = true) rest hrest
  | boolean value =>
    cases value with
    | true => exact scans_word (by decide : isWord "true" = true) rest hrest
    | false => exact scans_word (by decide : isWord "false" = true) rest hrest
  | integer value =>
    have hpieces : (toString value).toList =
        (if decide (value < 0) = true then ['-'] else []) ++
          (Nat.toDigits 10 value.natAbs ++ (Decimal.pointed [] ++ [])) := by
      simp only [toList_toString, Decimal.pointed, if_true, List.append_nil, decide_eq_true_eq]
    exact scans_ofNumeral (areDigits_toDigits _) (by simp) .none hpieces hrest
  | decimal value =>
    obtain ⟨whole, fraction, power, e, hwhole, hfraction, hpower, htext⟩ :=
      value.exists_pieces_of_text
    exact scans_ofNumeral hwhole hfraction hpower htext hrest
  | character value =>
    have h := scans_quoted (.inl rfl) value rest
    have htext : (Scalar.character value).javaLiteral =
        String.ofList ('\'' :: (Text.escape (some '\'') value).toList ++ ['\'']) := by
      apply String.toList_injective
      simp [Scalar.javaLiteral]
    rw [Term.ofScalar, Term.lexemes, htext, String.toList_ofList]
    simpa using h
  | string value =>
    have h := scans_quoted (.inr rfl) value rest
    have htext : (Scalar.string value).javaLiteral =
        String.ofList ('"' :: (Text.escape (some '"') value).toList ++ ['"']) := by
      apply String.toList_injective
      simp [Scalar.javaLiteral]
    rw [Term.ofScalar, Term.lexemes, htext, String.toList_ofList]
    simpa using h

/-! ### Expressions -/

namespace Expression

@[simp]
theorem text_element (array : String) (index : Expression) :
    (element array index).text = array ++ "[" ++ index.text ++ "]" :=
  rfl

@[simp]
theorem text_call (function : String) (arguments : List Expression) :
    (call function arguments).text = function ++ "(" ++ ", ".intercalate (texts arguments) ++ ")" :=
  rfl

@[simp]
theorem text_binary (symbol : String) (left right : Expression) :
    (binary symbol left right).text = left.text ++ " " ++ symbol ++ " " ++ right.text :=
  rfl

@[simp]
theorem text_power (base exponent : Expression) :
    (power base exponent).text =
      "(int) Math.pow(" ++ base.text ++ ", " ++ exponent.text ++ ")" :=
  rfl

@[simp]
theorem text_parentheses (inner : Expression) :
    (parentheses inner).text = "(" ++ inner.text ++ ")" :=
  rfl

@[simp]
theorem text_braces (values : List Expression) :
    (braces values).text = "\x7b" ++ ", ".intercalate (texts values) ++ "\x7d" :=
  rfl

theorem texts_nil : texts [] = [] :=
  rfl

theorem texts_cons (form : Expression) (forms : List Expression) :
    texts (form :: forms) = form.text :: texts forms :=
  rfl

theorem intercalate_texts (form next : Expression) (forms : List Expression) :
    (", ".intercalate (texts (form :: next :: forms))).toList =
      form.text.toList ++ ',' :: ' ' :: (", ".intercalate (texts (next :: forms))).toList := by
  simp [texts_cons, String.intercalate_cons_cons]

mutual

/-- The lexemes of a printed expression are those of its parts. -/
theorem scans_text : ∀ {form : Expression}, form.IsLexical → ∀ (rest : List Char), Ends rest →
    Scans (form.text.toList ++ rest) form.lexemes rest
  | literal value, _, rest, hrest => scans_literal value hrest
  | name identifier, h, rest, hrest => scans_word h rest hrest
  | element array index, h, rest, hrest => by
    rw [IsLexical] at h
    have hcs : (element array index).text.toList ++ rest =
        array.toList ++ '[' :: (index.text.toList ++ ']' :: rest) := by simp
    have hindex := scans_text h.2 (']' :: rest) (ends_cons (by decide))
    have harray := scans_word h.1 ('[' :: (index.text.toList ++ ']' :: rest))
      (ends_cons (by decide))
    rw [hcs, lexemes]
    exact harray.trans ((scans_mark rfl _).trans (hindex.trans (scans_mark rfl rest)))
  | call function arguments, h, rest, hrest => by
    rw [IsLexical] at h
    have hcs : (call function arguments).text.toList ++ rest = function.toList ++
        '(' :: ((", ".intercalate (texts arguments)).toList ++ ')' :: rest) := by simp
    have harguments := scans_texts h.2 (')' :: rest) (ends_cons (by decide))
    have hfunction := scans_word h.1
      ('(' :: ((", ".intercalate (texts arguments)).toList ++ ')' :: rest))
      (ends_cons (by decide))
    rw [hcs, lexemes]
    exact hfunction.trans ((scans_mark rfl _).trans (harguments.trans (scans_mark rfl rest)))
  | binary symbol left right, h, rest, hrest => by
    rw [IsLexical] at h
    obtain ⟨⟨op, rfl⟩, hleft, hright⟩ := h
    have hcs : (binary op.text left right).text.toList ++ rest = left.text.toList ++
        ' ' :: (op.text.toList ++ ' ' :: (right.text.toList ++ rest)) := by simp
    have hleftScans := scans_text hleft (' ' :: (op.text.toList ++ ' ' ::
      (right.text.toList ++ rest))) (ends_cons (by decide))
    have hopScans := scans_operator op (' ' :: (right.text.toList ++ rest))
      (by simp [isOperatorCharacter, operatorCharacters])
    have hrightScans := scans_text hright rest hrest
    rw [hcs, lexemes]
    exact hleftScans.trans (hopScans.trans hrightScans.blank).blank
  | power base exponent, h, rest, hrest => by
    rw [IsLexical] at h
    have hcs : (power base exponent).text.toList ++ rest = '(' :: ("int".toList ++ ')' :: ' ' ::
        ("Math.pow".toList ++ '(' :: (base.text.toList ++ ',' :: ' ' ::
          (exponent.text.toList ++ ')' :: rest)))) := by simp
    have hexponent := scans_text h.2 (')' :: rest) (ends_cons (by decide))
    have hbase := scans_text h.1 (',' :: ' ' :: (exponent.text.toList ++ ')' :: rest))
      (ends_cons (by decide))
    have hpow := scans_word (by decide : isWord "Math.pow" = true) ('(' :: (base.text.toList ++
      ',' :: ' ' :: (exponent.text.toList ++ ')' :: rest))) (ends_cons (by decide))
    have hint := scans_word (by decide : isWord "int" = true) (')' :: ' ' ::
      ("Math.pow".toList ++ '(' :: (base.text.toList ++ ',' :: ' ' ::
        (exponent.text.toList ++ ')' :: rest)))) (ends_cons (by decide))
    have hoperands := hbase.trans ((scans_mark (c := ',') rfl _).trans hexponent.blank)
    have hcall := hpow.trans ((scans_mark (c := '(') rfl _).trans
      (hoperands.trans (scans_mark (c := ')') rfl rest)))
    have hcast := (scans_mark (c := '(') rfl _).trans
      (hint.trans ((scans_mark (c := ')') rfl _).trans hcall.blank))
    rw [hcs, lexemes]
    simpa [separated] using hcast
  | parentheses inner, h, rest, hrest => by
    rw [IsLexical] at h
    have hcs : (parentheses inner).text.toList ++ rest =
        '(' :: (inner.text.toList ++ ')' :: rest) := by simp
    have hinner := scans_text h (')' :: rest) (ends_cons (by decide))
    rw [hcs, lexemes]
    exact (scans_mark rfl _).trans (hinner.trans (scans_mark rfl rest))
  | braces values, h, rest, hrest => by
    rw [IsLexical] at h
    have hcs : (braces values).text.toList ++ rest =
        '\x7b' :: ((", ".intercalate (texts values)).toList ++ '\x7d' :: rest) := by simp
    have hvalues := scans_texts h ('\x7d' :: rest) (ends_cons (by decide))
    rw [hcs, lexemes]
    exact (scans_mark rfl _).trans (hvalues.trans (scans_mark rfl rest))

theorem scans_texts : ∀ {forms : List Expression}, AreLexical forms → ∀ (rest : List Char),
    Ends rest → Scans ((", ".intercalate (texts forms)).toList ++ rest)
      (separated (lexemesOf forms)) rest
  | [], _, rest, _ => by
    simpa [texts_nil, lexemesOf, separated] using Scans.refl rest
  | [form], h, rest, hrest => by
    rw [AreLexical] at h
    have hform := scans_text h.1 rest hrest
    simpa [texts_cons, texts_nil, lexemesOf, separated] using hform
  | form :: next :: forms, h, rest, hrest => by
    rw [AreLexical] at h
    have hforms := scans_texts h.2 rest hrest
    have hform := scans_text h.1 (',' :: ' ' ::
      ((", ".intercalate (texts (next :: forms))).toList ++ rest)) (ends_cons (by decide))
    rw [intercalate_texts, List.append_assoc]
    exact hform.trans ((scans_mark rfl _).trans hforms.blank)

end

/-- The printed expression has the lexemes of its parts. -/
theorem lexemesOfText?_text {form : Expression} (h : form.IsLexical) :
    lexemesOfText? form.text = some form.lexemes := by
  have hscan := scans_text h [] ends_nil (by rfl : lexemesFrom? 0 [] = some [])
  rwa [List.append_nil, List.append_nil] at hscan

end Expression

end BlockScript.Java

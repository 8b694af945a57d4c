import BlockScript.Proofs.Parser.Derivation
import BlockScript.Proofs.Token.Layout
import Mathlib.Data.List.DropRight
/-!
# Escaped texts read back

Three tables have to fit together: the letters that the lexer allows behind a backslash, the
characters that the parser takes these letters for, and the letters that characters are written with.
They do, because a character is written either as it is, and then it means nothing else to a reader,
or as a backslash with a letter that stands for it. An escaped text is a row of such pieces, so that
every backslash in it either begins a piece or ends one, and a reader that goes from left to right
finds the same pieces again.

## Main definitions

* `Text.backslashesAtEnd`, `Text.QuotesEscaped` — quotes that do not end a literal

## Main results

* `Text.escapeChar_cases` — how one character is written
* `Text.unescape_escape` — reading what was written
* `tokenize_quoted`, `Token.Lexed.exists_character` — quoted words are tokens that stand for texts
* `parseExpression_of_literal` — literals in source texts
-/

namespace BlockScript

open Lexer Terminal
open scoped Computability

/-! ### Pieces -/

namespace Text

variable {quote c d : Char}

/-- The lexer allows a letter behind a backslash exactly if the letter stands for something. -/
theorem isEscapeLetter_iff : isEscapeLetter d = true ↔ (escapedChar? d).isSome = true := by
  constructor
  · intro h
    have hletters : "bnrt'\"\\".toList.all fun letter => (escapedChar? letter).isSome := by decide
    rw [isEscapeLetter, List.contains_iff_mem] at h
    exact List.all_eq_true.mp hletters d h
  · intro h
    unfold escapedChar? at h
    split at h
    all_goals first | rfl | cases h

/-- Between quotes a character is written as it is, if it means nothing else there, or else as a
backslash and a letter that stands for it. -/
theorem escapeChar_cases (hquote : quote = '\'' ∨ quote = '"') (c : Char) :
    escapeChar (some quote) c = [c] ∧ isPlain quote c = true ∨
      ∃ d, escapeChar (some quote) c = ['\\', d] ∧ escapedChar? d = some c := by
  unfold escapeChar
  split
  next h =>
    -- the quote around the literal stands for itself
    obtain rfl : quote = c := Option.some.inj h
    exact .inr ⟨quote, rfl, by rcases hquote with rfl | rfl <;> rfl⟩
  next hne =>
    split
    case h_6 hbackslash _ hline hreturn _ =>
      refine .inl ⟨rfl, isPlain_eq_true_iff.mpr ?_⟩
      rintro (rfl | rfl | rfl | rfl)
      · exact hne rfl
      · exact hbackslash rfl
      · exact hline rfl
      · exact hreturn rfl
    all_goals exact .inr ⟨_, rfl, rfl⟩

/-- A character that is written is something that can be quoted. -/
theorem escapeChar_mem_quotable (hquote : quote = '\'' ∨ quote = '"') (c : Char) :
    escapeChar (some quote) c ∈ quotable quote := by
  rw [mem_quotable]
  rcases escapeChar_cases hquote c with ⟨hplain, hc⟩ | ⟨d, hescape, hd⟩
  · exact .inl ⟨c, hc, hplain⟩
  · refine .inr ⟨d, isEscapeLetter_iff.mpr ?_, hescape⟩
    rw [hd]
    rfl

/-- A text that is written is a row of characters that can be quoted. -/
theorem escape_mem_quotable (hquote : quote = '\'' ∨ quote = '"') (text : String) :
    (escape (some quote) text).toList ∈ (quotable quote)∗ := by
  rw [escape, String.toList_ofList, Language.mem_kstar]
  refine ⟨text.toList.map (escapeChar (some quote)), List.flatMap_def, ?_⟩
  intro piece hpiece
  obtain ⟨c, -, rfl⟩ := List.mem_map.mp hpiece
  exact escapeChar_mem_quotable hquote c

/-! ### Reading -/

theorem unescapeChars_backslash (h : escapedChar? d = some c) (rest : List Char) :
    unescapeChars ('\\' :: d :: rest) = c :: unescapeChars rest := by
  rw [unescapeChars, if_pos rfl, h]

theorem unescapeChars_plain (h : isPlain quote c = true) (rest : List Char) :
    unescapeChars (c :: rest) = c :: unescapeChars rest := by
  have hc : c ≠ '\\' := fun heq => isPlain_eq_true_iff.mp h (.inr (.inl heq))
  cases rest with
  | nil => rfl
  | cons d rest => rw [unescapeChars, if_neg hc]

/-- Reading takes one piece for the character that was written. -/
theorem unescapeChars_escapeChar (hquote : quote = '\'' ∨ quote = '"') (c : Char)
    (rest : List Char) :
    unescapeChars (escapeChar (some quote) c ++ rest) = c :: unescapeChars rest := by
  rcases escapeChar_cases hquote c with ⟨hplain, hc⟩ | ⟨d, hescape, hd⟩
  · rw [hplain]
    exact unescapeChars_plain hc rest
  · rw [hescape]
    exact unescapeChars_backslash hd rest

/-- Reading gives what was written, between quotes of both kinds. -/
theorem unescape_escape (hquote : quote = '\'' ∨ quote = '"') (text : String) :
    unescape (escape (some quote) text) = text := by
  have hchars : ∀ cs, unescapeChars (cs.flatMap (escapeChar (some quote))) = cs := by
    intro cs
    induction cs with
    | nil => rfl
    | cons c cs ih => rw [List.flatMap_cons, unescapeChars_escapeChar hquote, ih]
  rw [unescape, escape, String.toList_ofList, hchars, String.ofList_toList]

/-- What can be quoted between quotes stands for one character. -/
theorem exists_unescapeChars_of_quotable {word : List Char} (h : word ∈ quotable quote) :
    ∃ c, unescapeChars word = [c] := by
  rcases mem_quotable.mp h with ⟨c, hc, rfl⟩ | ⟨d, hd, rfl⟩
  · exact ⟨c, unescapeChars_plain hc []⟩
  · obtain ⟨c, hc⟩ := Option.isSome_iff_exists.mp (isEscapeLetter_iff.mp hd)
    exact ⟨c, unescapeChars_backslash hc []⟩

/-! ### Quotes and line ends -/

/-- The number of backslashes that a text ends with. -/
def backslashesAtEnd (cs : List Char) : Nat :=
  (cs.rtakeWhile (· == '\\')).length

theorem backslashesAtEnd_concat (cs : List Char) (c : Char) :
    backslashesAtEnd (cs ++ [c]) = if c = '\\' then backslashesAtEnd cs + 1 else 0 := by
  unfold backslashesAtEnd
  rw [List.rtakeWhile_concat]
  by_cases hc : c = '\\' <;> simp [hc]

/-- Every quote in a text stands behind an odd number of backslashes, so that it does not end a
literal. -/
def QuotesEscaped (quote : Char) (cs : List Char) : Prop :=
  ∀ before behind, cs = before ++ quote :: behind → backslashesAtEnd before % 2 = 1

/-- A quote in a longer text is in the text that was there before or in what was added. -/
theorem QuotesEscaped.append {cs piece : List Char} (h : QuotesEscaped quote cs)
    (hpiece : ∀ before behind, piece = before ++ quote :: behind →
      backslashesAtEnd (cs ++ before) % 2 = 1) : QuotesEscaped quote (cs ++ piece) := by
  intro before behind hsplit
  rcases List.append_eq_append_iff.mp hsplit with ⟨more, rfl, hmore⟩ | ⟨more, rfl, hmore⟩
  · exact hpiece more behind hmore
  · cases more with
    | nil =>
      have hodd := hpiece [] behind hmore.symm
      simpa using hodd
    | cons c more =>
      obtain ⟨rfl, -⟩ := List.cons.inj hmore
      exact h before more rfl

/-- Quotes in a row of pieces are escaped. All backslashes at its end belong to pairs, so that what
is put behind them keeps its meaning. -/
theorem quotesEscaped_of_quotable (hquote : quote ≠ '\\') {word : List Char}
    (h : word ∈ (quotable quote)∗) :
    QuotesEscaped quote word ∧ backslashesAtEnd word % 2 = 0 := by
  obtain ⟨pieces, rfl, hpieces⟩ := Language.mem_kstar.mp h
  clear h
  -- backslashes are counted from the end, hence the induction from the last piece
  induction pieces using List.reverseRecOn with
  | nil =>
    refine ⟨fun before behind hsplit => ?_, rfl⟩
    simp at hsplit
  | append_singleton pieces piece ih =>
    obtain ⟨hpieces, hpiece⟩ := List.forall_mem_append.mp hpieces
    obtain ⟨ihquotes, iheven⟩ := ih hpieces
    rw [List.flatten_append, List.flatten_singleton]
    rcases mem_quotable.mp (hpiece piece List.mem_cons_self) with ⟨c, hc, rfl⟩ | ⟨d, -, rfl⟩
    · have hplain := isPlain_eq_true_iff.mp hc
      have hbackslash : c ≠ '\\' := fun heq => hplain (.inr (.inl heq))
      refine ⟨ihquotes.append fun before behind hsplit => ?_, ?_⟩
      · -- the plain character is not the quote
        have hmem : quote ∈ [c] := by simp [hsplit]
        exact absurd (List.mem_singleton.mp hmem).symm fun heq => hplain (.inl heq)
      · rw [backslashesAtEnd_concat, if_neg hbackslash]
    · have hconcat : pieces.flatten ++ ['\\', d] = pieces.flatten ++ ['\\'] ++ [d] := by simp
      refine ⟨ihquotes.append fun before behind hsplit => ?_, ?_⟩
      · -- the quote is what the backslash is for
        obtain rfl : before = ['\\'] := by
          rcases before with _ | ⟨e, _ | ⟨e', before⟩⟩
          · exact absurd (List.cons.inj hsplit).1.symm hquote
          · rw [(List.cons.inj hsplit).1]
          · have hlength := congrArg List.length hsplit
            simp only [List.length_cons, List.length_nil, List.length_append] at hlength
            omega
        rw [backslashesAtEnd_concat, if_pos rfl]
        omega
      · rw [hconcat, backslashesAtEnd_concat, backslashesAtEnd_concat, if_pos rfl]
        split
        · omega
        · rfl

/-- There is no end of a line in a row of pieces. -/
theorem ne_line_of_quotable {word : List Char} (h : word ∈ (quotable quote)∗) :
    ∀ c ∈ word, c ≠ '\n' ∧ c ≠ '\r' := by
  obtain ⟨pieces, rfl, hpieces⟩ := Language.mem_kstar.mp h
  intro c hc
  obtain ⟨piece, hpiece, hmem⟩ := List.mem_flatten.mp hc
  rcases mem_quotable.mp (hpieces piece hpiece) with ⟨d, hd, rfl⟩ | ⟨d, hd, rfl⟩
  · obtain rfl := List.mem_singleton.mp hmem
    have hplain := isPlain_eq_true_iff.mp hd
    exact ⟨fun heq => hplain (.inr (.inr (.inl heq))), fun heq => hplain (.inr (.inr (.inr heq)))⟩
  · -- neither the backslash nor the letter is
    rcases List.mem_cons.mp hmem with rfl | hmem
    · decide
    · obtain rfl := List.mem_singleton.mp hmem
      constructor
      · rintro rfl
        exact absurd hd (by decide)
      · rintro rfl
        exact absurd hd (by decide)

end Text

/-! ### Literals in source texts -/

section

variable {kind : TokenKind} {word : List Char}

/-- A quoted word is one token. -/
theorem tokenize_quoted (hkind : kind = .character ∨ kind = .string) (hword : word ∈ language kind) :
    (⟨kind, String.ofList word, 0⟩ : Token).Lexed ∧
      tokenize (String.ofList word) = .ok [⟨kind, String.ofList word, 0⟩] := by
  have hfirst : IsFirst kind word word := by
    refine ⟨⟨hword, List.prefix_rfl, fun other _ hother => hother.length_le⟩, ?_⟩
    intro other hmatches hne
    -- the quote at its head settles the kind of a word
    obtain ⟨c, rest, hhead, hc⟩ := hmatches.exists_starts
    refine absurd ?_ hne
    rcases hkind with rfl | rfl
    · obtain ⟨inner, -, rfl⟩ := mem_character.mp hword
      obtain ⟨rfl, -⟩ := List.cons.inj hhead
      exact eq_character_of_starts hc
    · obtain ⟨inner, -, rfl⟩ := mem_string.mp hword
      obtain ⟨rfl, -⟩ := List.cons.inj hhead
      exact eq_string_of_starts hc
  have hlexed : (⟨kind, String.ofList word, 0⟩ : Token).Lexed := by
    have hat := tokenAt?_eq_some_iff.mpr ⟨word, hfirst, rfl⟩
    rwa [Token.Lexed, String.toList_ofList, String.length_ofList]
  exact ⟨hlexed, hlexed.tokenize_eq⟩

end

/-- A character token stands for one character. -/
theorem Token.Lexed.exists_character {token : Token} (h : token.Lexed)
    (hkind : token.kind = .character) :
    ∃ c : Char, Text.unescape (Parser.inside token.text) = c.toString := by
  have hmem := h.mem_language
  rw [hkind] at hmem
  obtain ⟨inner, hinner, hquoted⟩ := mem_character.mp hmem
  obtain ⟨c, hc⟩ := Text.exists_unescapeChars_of_quotable hinner
  refine ⟨c, ?_⟩
  rw [Text.unescape, Parser.inside, hquoted, List.tail_cons, List.dropLast_concat,
    String.toList_ofList, hc]
  rfl

/-- A token that is a literal is parsed as its value. -/
theorem parseExpression_of_literal {source : String} {token : Token} {value : Scalar}
    (htokens : tokenize source = .ok [token]) (h : Grammar.Literal token value) :
    parseExpression source = .ok (.literal value none, 1) := by
  have hlexed : Parser.AllLexed [token] := Token.lexed_of_tokenize htokens
  rw [parseExpression, Parser.runText, htokens]
  exact Parser.run_expression_of_derives hlexed (Parser.expression_of_literal h)

end BlockScript

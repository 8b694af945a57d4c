import BlockScript.Proofs.Token.Terminal
/-!
# Tokenizations

The tokens of a text are the ones that cut it up: they stand apart and in order, what is between
them is blank, and each of them is the first terminal at its place. A text has one such list of
tokens at most. The lexer finds it, and where there is none it stops at the first place at which it
is stuck; the text in front of that place is cut up completely, and into the same tokens.

## Main definitions

* `IsTokenization` — tokens cut up a text from a place on
* `Reads` — what can be read of a text from a place on, token by token
* `EndsWith` — a text ends with the last of its tokens or with a blank

## Main results

* `reads_iff` — the lexer does what `Reads` says
* `tokenize_exact` — tokens and errors of the lexer
-/

namespace BlockScript

open Lexer Terminal

/-- The tokens cut up a text from a place on. -/
structure IsTokenization (start : Nat) (cs : List Char) (tokens : List Token) : Prop where
  /-- No token begins in front of the place. -/
  le_index : ∀ token ∈ tokens, start ≤ token.index
  /-- The indices of the tokens increase. -/
  increasing : tokens.Pairwise fun a b => a.index < b.index
  /-- A token begins where the one in front of it has ended, or later. -/
  apart : tokens.Pairwise fun a b => a.stop ≤ b.index
  /-- A token is spelled as the text is at its index. -/
  spelled : ∀ token ∈ tokens,
    (cs.drop token.index).take token.text.toList.length = token.text.toList
  /-- A character outside all tokens is blank. -/
  blank : ∀ i c, start ≤ i → cs[i]? = some c →
    (∀ token ∈ tokens, i < token.index ∨ token.stop ≤ i) → c ∈ blanks
  /-- A token belongs to the first terminal at its index, and is as long as that goes. -/
  first : ∀ token ∈ tokens, IsFirst token.kind token.text.toList (cs.drop token.index)

/-- A text is empty, or it ends with its last token, or with a blank behind its last token. -/
def EndsWith (cs : List Char) (tokens : List Token) : Prop :=
  ∀ c, cs.getLast? = some c →
    (∃ token, tokens.getLast? = some token ∧ token.stop = cs.length) ∨
      c ∈ blanks ∧ ∀ token ∈ tokens, token.stop < cs.length

/-- What can be read of a text from a place on: nothing at its end, else a blank or the first
terminal and then what is behind it, or else an error. -/
inductive Reads (cs : List Char) : Nat → Except LexicalError (List Token) → Prop
  | finished : Reads cs cs.length (.ok [])
  | blank {i c result} : cs[i]? = some c → c ∈ blanks → Reads cs (i + 1) result →
      Reads cs i result
  | token {i kind word result} : IsFirst kind word (cs.drop i) →
      Reads cs (i + word.length) result →
      Reads cs i (result.map ({ kind, text := String.ofList word, index := i } :: ·))
  | stuck {i c} : cs[i]? = some c → IsStuck (cs.drop i) →
      Reads cs i (.error { character := c, index := i })

/-! ### Terminals and what follows them -/

namespace Terminal

theorem IsFirst.length_pos {kind : TokenKind} {word cs : List Char} (h : IsFirst kind word cs) :
    0 < word.length := by
  obtain ⟨c, rest, rfl, -⟩ := exists_starts h.mem
  exact Nat.succ_pos _

theorem IsFirst.length_le {kind : TokenKind} {word cs : List Char} (h : IsFirst kind word cs) :
    word.length ≤ cs.length :=
  h.isPrefix.length_le

theorem Matches.append {kind : TokenKind} {cs : List Char} (h : Matches kind cs)
    (tail : List Char) : Matches kind (cs ++ tail) := by
  obtain ⟨word, hword, hstart⟩ := h
  exact ⟨word, hword, hstart.trans (List.prefix_append cs tail)⟩

theorem exists_isFirst_of_matches {kind : TokenKind} {cs : List Char} (h : Matches kind cs) :
    ∃ kind word, IsFirst kind word cs := by
  cases hfound : tokenAt? cs with
  | none => exact absurd h (tokenAt?_eq_none_iff.mp hfound kind)
  | some found => exact ⟨found.1, _, isFirst_of_tokenAt? hfound⟩

/-- The first terminal is also the first one in a piece of the text that contains its word. -/
theorem IsFirst.of_append {kind : TokenKind} {word cs tail : List Char}
    (h : IsFirst kind word (cs ++ tail)) (hle : word.length ≤ cs.length) :
    IsFirst kind word cs where
  mem := h.mem
  isPrefix := List.prefix_of_prefix_length_le h.isPrefix (List.prefix_append cs tail) hle
  longest other hother hstart :=
    h.longest other hother (hstart.trans (List.prefix_append cs tail))
  first other hmatches hne := h.first other (hmatches.append tail) hne

/-- A quoted word has no other one in front of it. -/
theorem eq_of_prefix_of_quoted {kind : TokenKind} (hkind : kind = .character ∨ kind = .string)
    {word other : List Char} (hword : word ∈ language kind) (hother : other ∈ language kind)
    (hstart : word <+: other) : word = other := by
  refine hstart.eq_of_length ?_
  obtain ⟨rest, rfl⟩ := hstart
  rcases hkind with rfl | rfl
  · have hshort := characterLength?_append_of_mem hword rest
    have hlong := characterLength?_append_of_mem hother []
    rw [List.append_nil, hshort] at hlong
    exact Option.some.inj hlong
  · have hshort := stringLength?_append_of_mem hword rest
    have hlong := stringLength?_append_of_mem hother []
    rw [List.append_nil, hshort] at hlong
    exact Option.some.inj hlong

theorem exists_mem_of_isDigit {c : Char} (h : c.isDigit = true) : ∃ kind, [c] ∈ language kind :=
  ⟨.integer, mem_integer.mpr ⟨[], [c], .inl rfl, ⟨by simp, by simpa using h⟩, rfl⟩⟩

theorem exists_mem_of_isIdentifierPart {c : Char} (h : isIdentifierPart c = true) :
    ∃ kind, [c] ∈ language kind := by
  by_cases hdigit : c.isDigit = true
  · exact exists_mem_of_isDigit hdigit
  · refine ⟨.identifier, mem_identifier.mpr ⟨c, [], ?_, by simp, rfl⟩⟩
    simpa [isIdentifierPart, isIdentifierStart, Char.isAlphanum, hdigit] using h

/-- Inside a word without quotes, every character but the first is a word itself. -/
theorem exists_mem_of_mem_tail {kind : TokenKind} (hkind : ¬(kind = .character ∨ kind = .string))
    {d : Char} {rest : List Char} (h : d :: rest ∈ language kind) :
    ∀ c ∈ rest, ∃ other, [c] ∈ language other := by
  have hinteger : ∀ {d rest}, d :: rest ∈ language .integer →
      ∀ c ∈ rest, ∃ other, [c] ∈ language other := by
    intro d rest h c hc
    obtain ⟨s, ds, hs, hds, heq⟩ := mem_integer.mp h
    refine exists_mem_of_isDigit (hds.2 c ?_)
    rcases hs with rfl | rfl | rfl
    · obtain rfl : d :: rest = ds := heq
      exact List.mem_cons_of_mem _ hc
    · obtain rfl : rest = ds := (List.cons.inj heq).2
      exact hc
    · obtain rfl : rest = ds := (List.cons.inj heq).2
      exact hc
  intro c hc
  cases kind with
  | integer => exact hinteger h c hc
  | decimal =>
    obtain ⟨whole, fraction, hwhole, hfraction, heq⟩ := mem_decimal.mp h
    obtain ⟨d', whole, rfl, -⟩ := exists_starts hwhole
    obtain ⟨rfl, rfl⟩ := List.cons.inj heq
    rcases List.mem_append.mp hc with hc | hc
    · exact hinteger hwhole c hc
    · rcases List.mem_cons.mp hc with rfl | hc
      · exact ⟨.operator, mem_operator.mpr (.inr ⟨_, by decide, rfl⟩)⟩
      · exact exists_mem_of_isDigit (hfraction.2 c hc)
  | identifier =>
    obtain ⟨d', part, -, hpart, heq⟩ := mem_identifier.mp h
    obtain ⟨rfl, rfl⟩ := List.cons.inj heq
    exact exists_mem_of_isIdentifierPart (hpart c hc)
  | operator =>
    refine ⟨.operator, mem_operator.mpr (.inr ⟨c, ?_, rfl⟩)⟩
    rcases mem_operator.mp h with ⟨d', e, hpair, heq⟩ | ⟨d', -, heq⟩
    · obtain ⟨rfl, rfl⟩ := List.cons.inj heq
      obtain rfl := List.mem_singleton.mp hc
      rcases hpair with ⟨-, rfl⟩ | ⟨-, rfl⟩ | ⟨-, rfl⟩ <;> decide
    · obtain ⟨rfl, rfl⟩ := List.cons.inj heq
      cases hc
  | character => exact absurd (.inl rfl) hkind
  | string => exact absurd (.inr rfl) hkind

/-- The first character of a text is no word by itself. Words without quotes do not go on behind
such a place. -/
def Separates (cs : List Char) : Prop :=
  ∀ c, cs.head? = some c → ∀ kind, [c] ∉ language kind

theorem IsStuck.separates {cs : List Char} (h : IsStuck cs) : Separates cs := by
  intro c hc kind hmem
  obtain ⟨rest, rfl⟩ := List.head?_eq_some_iff.mp hc
  exact h.2 kind ⟨[c], hmem, List.prefix_append [c] rest⟩

theorem separates_of_mem_blanks {c : Char} {rest : List Char} (h : c ∈ blanks) :
    Separates (c :: rest) := by
  rintro _ ⟨⟩ kind hmem
  obtain ⟨d, tail, heq, hd⟩ := exists_starts hmem
  obtain ⟨rfl, -⟩ := List.cons.inj heq
  rw [starts_of_mem_blanks kind c h] at hd
  cases hd

/-- What is first in a piece of text stays first in front of a text that separates: nothing that
begins in the piece reaches into that text. -/
theorem IsFirst.append {kind : TokenKind} {word cs tail : List Char} (h : IsFirst kind word cs)
    (htail : Separates tail) : IsFirst kind word (cs ++ tail) := by
  obtain ⟨kind', word', h'⟩ := exists_isFirst_of_matches (h.matches.append tail)
  by_cases hle : word'.length ≤ cs.length
  · obtain ⟨rfl, rfl⟩ := h.unique (h'.of_append hle)
    exact h'
  exfalso
  -- the longer word consists of the piece and the head of the text behind it
  have hcs : cs <+: word' :=
    List.prefix_of_prefix_length_le (List.prefix_append cs tail) h'.isPrefix (by omega)
  obtain ⟨more, rfl⟩ := hcs
  have hmore : more <+: tail := (List.prefix_append_right_inj cs).mp h'.isPrefix
  obtain ⟨c, rest, rfl⟩ : ∃ c rest, more = c :: rest := by
    refine List.exists_cons_of_ne_nil fun hnil => hle ?_
    rw [hnil, List.append_nil]
  obtain ⟨d, front, rfl, hd⟩ := h.matches.exists_starts
  by_cases hquoted : kind' = .character ∨ kind' = .string
  · -- the quote settles the terminal, and a quoted word does not go on
    obtain ⟨d', rest', heq, hd'⟩ := exists_starts h'.mem
    obtain ⟨rfl, -⟩ := List.cons.inj heq
    have hsame : kind = kind' := by
      rcases hquoted with rfl | rfl
      · obtain rfl : d = '\'' := by simpa [starts] using hd'
        exact eq_character_of_starts hd
      · obtain rfl : d = '"' := by simpa [starts] using hd'
        exact eq_string_of_starts hd
    subst hsame
    have heq := eq_of_prefix_of_quoted hquoted h.mem h'.mem
      (h.isPrefix.trans (List.prefix_append _ _))
    have hlength := h.length_le
    rw [heq] at hlength
    exact hle hlength
  · obtain ⟨other, hother⟩ := exists_mem_of_mem_tail hquoted h'.mem c (by simp)
    obtain ⟨last, rfl⟩ := hmore
    exact htail c rfl other hother

end Terminal

/-! ### Reading -/

theorem Lexer.tokensFrom_pending {cs : List Char} {n : Nat} (index : Nat) (hn : n ≤ cs.length) :
    tokensFrom index n cs = tokensFrom (index + n) 0 (cs.drop n) := by
  induction n generalizing index cs with
  | zero => rfl
  | succ n ih =>
    obtain _ | ⟨c, rest⟩ := cs
    · cases hn
    rw [tokensFrom, ih (index + 1) (Nat.le_of_succ_le_succ hn), List.drop_succ_cons,
      Nat.add_right_comm, Nat.add_assoc]

/-- What the lexer reads of a text from a place on. -/
def Lexer.scan (cs : List Char) (i : Nat) : Except LexicalError (List Token) :=
  tokensFrom i 0 (cs.drop i)

section

variable {cs : List Char} {i : Nat} {c : Char} {result : Except LexicalError (List Token)}

theorem drop_eq_cons (h : cs[i]? = some c) : cs.drop i = c :: cs.drop (i + 1) := by
  obtain ⟨hi, rfl⟩ := List.getElem?_eq_some_iff.mp h
  exact List.drop_eq_getElem_cons hi

theorem lt_length_of_getElem? (h : cs[i]? = some c) : i < cs.length :=
  (List.getElem?_eq_some_iff.mp h).1

theorem not_mem_blanks_of_isFirst {kind : TokenKind} {word : List Char}
    (h : IsFirst kind word (cs.drop i)) (hc : cs[i]? = some c) : c ∉ blanks := by
  intro hblank
  obtain ⟨d, rest, heq, hd⟩ := h.matches.exists_starts
  rw [drop_eq_cons hc] at heq
  obtain ⟨rfl, -⟩ := List.cons.inj heq
  rw [starts_of_mem_blanks kind c hblank] at hd
  cases hd

theorem exists_getElem?_of_isFirst {kind : TokenKind} {word : List Char}
    (h : IsFirst kind word (cs.drop i)) : ∃ c, cs[i]? = some c := by
  have hpos := h.length_pos
  have hle := h.length_le
  rw [List.length_drop] at hle
  exact ⟨_, List.getElem?_eq_getElem (by omega)⟩

/-- What can be read is what the lexer reads. -/
theorem Reads.scan_eq (h : Reads cs i result) : scan cs i = result := by
  induction h with
  | finished => rw [scan, List.drop_length, tokensFrom]
  | @blank i c result hc hblank _ ih =>
    rw [scan, drop_eq_cons hc, tokensFrom, if_pos (isSpace_eq_true_iff.mpr hblank)]
    exact ih
  | @token i kind word result hfirst _ ih =>
    obtain ⟨c, hc⟩ := exists_getElem?_of_isFirst hfirst
    have hpos := hfirst.length_pos
    have hle := hfirst.length_le
    have hat := tokenAt?_eq_some_iff.mpr ⟨word, hfirst, rfl⟩
    have htake := List.prefix_iff_eq_take.mp hfirst.isPrefix
    rw [drop_eq_cons hc] at hat htake hle
    rw [List.length_cons] at hle
    have hspace : isSpace c = false := by
      rw [← Bool.not_eq_true, isSpace_eq_true_iff]
      exact not_mem_blanks_of_isFirst hfirst hc
    rw [scan, drop_eq_cons hc, tokensFrom, hspace, if_neg Bool.false_ne_true, hat]
    -- the rest of the word is passed over
    have hrest : tokensFrom (i + 1) (word.length - 1) (cs.drop (i + 1)) = result := by
      have hindex : i + 1 + (word.length - 1) = i + word.length := by omega
      rw [tokensFrom_pending _ (by omega), List.drop_drop, hindex]
      exact ih
    simp only [hrest, ← htake]
    cases result <;> rfl
  | @stuck i c hc hstuck =>
    have hspace : isSpace c = false := by
      rw [← Bool.not_eq_true, isSpace_eq_true_iff]
      exact hstuck.1 c (by rw [drop_eq_cons hc]; rfl)
    have hnone := tokenAt?_eq_none_iff.mpr hstuck.2
    rw [drop_eq_cons hc] at hnone
    rw [scan, drop_eq_cons hc, tokensFrom, hspace, if_neg Bool.false_ne_true, hnone]

/-- Something can be read at every place. -/
theorem exists_reads (hi : i ≤ cs.length) : ∃ result, Reads cs i result := by
  induction hleft : cs.length - i using Nat.strong_induction_on generalizing i with
  | _ left ih =>
    subst hleft
    rcases hi.eq_or_lt with rfl | hlt
    · exact ⟨_, .finished⟩
    have hc := List.getElem?_eq_getElem hlt
    by_cases hblank : cs[i] ∈ blanks
    · obtain ⟨result, hresult⟩ := ih _ (by omega) (Nat.succ_le_of_lt hlt) rfl
      exact ⟨result, .blank hc hblank hresult⟩
    by_cases hmatches : ∃ kind, Matches kind (cs.drop i)
    · obtain ⟨kind, hkind⟩ := hmatches
      obtain ⟨kind, word, hfirst⟩ := exists_isFirst_of_matches hkind
      have hpos := hfirst.length_pos
      have hle := hfirst.length_le
      rw [List.length_drop] at hle
      obtain ⟨result, hresult⟩ := ih (cs.length - (i + word.length)) (by omega) (by omega) rfl
      exact ⟨_, .token hfirst hresult⟩
    · refine ⟨_, .stuck hc ⟨fun c h => ?_, not_exists.mp hmatches⟩⟩
      rw [drop_eq_cons hc] at h
      cases h
      exact hblank

/-- The lexer reads what can be read. -/
theorem reads_iff (hi : i ≤ cs.length) : Reads cs i result ↔ scan cs i = result := by
  constructor
  · exact Reads.scan_eq
  · rintro rfl
    obtain ⟨result, hresult⟩ := exists_reads hi
    rwa [hresult.scan_eq]

/-! ### Tokens -/

theorem stop_ofList (kind : TokenKind) (word : List Char) (index : Nat) :
    Token.stop { kind, text := String.ofList word, index } = index + word.length := by
  rw [Token.stop, String.length_ofList]

/-- The tokens that are read cut up the text. -/
theorem Reads.isTokenization (h : Reads cs i result) :
    ∀ tokens, result = .ok tokens → IsTokenization i cs tokens := by
  induction h with
  | finished =>
    rintro _ ⟨⟩
    refine ⟨by simp, .nil, .nil, by simp, fun i c hi hc _ => ?_, by simp⟩
    have hlt := lt_length_of_getElem? hc
    omega
  | @blank i c result hc hblank _ ih =>
    intro tokens hresult
    have ih := ih tokens hresult
    refine ⟨fun t ht => (Nat.le_succ i).trans (ih.le_index t ht), ih.increasing, ih.apart,
      ih.spelled, fun j d hj hd houtside => ?_, ih.first⟩
    rcases hj.eq_or_lt with rfl | hlt
    · rw [hc] at hd
      cases hd
      exact hblank
    · exact ih.blank j d hlt hd houtside
  | @token i kind word result hfirst _ ih =>
    intro tokens hresult
    obtain e | others := result
    · cases hresult
    cases hresult
    have ih := ih others rfl
    have hpos := hfirst.length_pos
    have hindex : ∀ t ∈ others, i < t.index := fun t ht => by
      have := ih.le_index t ht
      omega
    refine ⟨?_, ?_, ?_, ?_, fun j d hj hd houtside => ?_, ?_⟩
    · exact List.forall_mem_cons.mpr ⟨le_rfl, fun t ht => (hindex t ht).le⟩
    · exact List.pairwise_cons.mpr ⟨hindex, ih.increasing⟩
    · refine List.pairwise_cons.mpr ⟨fun t ht => ?_, ih.apart⟩
      rw [stop_ofList]
      exact ih.le_index t ht
    · refine List.forall_mem_cons.mpr ⟨?_, ih.spelled⟩
      rw [String.toList_ofList]
      exact (List.prefix_iff_eq_take.mp hfirst.isPrefix).symm
    · obtain ⟨hhead, hothers⟩ := List.forall_mem_cons.mp houtside
      rw [stop_ofList] at hhead
      exact ih.blank j d (hhead.resolve_left (Nat.not_lt.mpr hj)) hd hothers
    · refine List.forall_mem_cons.mpr ⟨?_, ih.first⟩
      rw [String.toList_ofList]
      exact hfirst
  | stuck => rintro _ ⟨⟩

/-- Tokens that cut up a text can be read. -/
theorem IsTokenization.reads {tokens : List Token} (h : IsTokenization i cs tokens)
    (hi : i ≤ cs.length) : Reads cs i (.ok tokens) := by
  induction hleft : cs.length - i using Nat.strong_induction_on generalizing i tokens with
  | _ left ih =>
    subst hleft
    -- either the first token begins here, or no token does
    by_cases hhead : ∃ token others, tokens = token :: others ∧ token.index = i
    · obtain ⟨token, others, rfl, rfl⟩ := hhead
      have hfirst := h.first token List.mem_cons_self
      have hpos := hfirst.length_pos
      have hle := hfirst.length_le
      have hstop : token.stop = token.index + token.text.toList.length := rfl
      rw [List.length_drop] at hle
      have hrest : IsTokenization (token.index + token.text.toList.length) cs others := by
        refine ⟨fun t ht => List.rel_of_pairwise_cons h.apart ht, h.increasing.of_cons,
          h.apart.of_cons, fun t ht => h.spelled t (List.mem_cons_of_mem _ ht), fun j d hj hd houtside => ?_,
          fun t ht => h.first t (List.mem_cons_of_mem _ ht)⟩
        refine h.blank j d (by omega) hd (List.forall_mem_cons.mpr ⟨.inr ?_, houtside⟩)
        rwa [hstop]
      have hreads := Reads.token hfirst (ih _ (by omega) hrest (by omega) rfl)
      rwa [String.ofList_toList] at hreads
    · have hafter : ∀ t ∈ tokens, i < t.index := by
        intro t ht
        obtain _ | ⟨token, others⟩ := tokens
        · cases ht
        have hne : token.index ≠ i := fun heq => hhead ⟨token, others, rfl, heq⟩
        have hle := h.le_index token List.mem_cons_self
        rcases List.mem_cons.mp ht with rfl | ht
        · omega
        · have := List.rel_of_pairwise_cons h.increasing ht
          omega
      rcases hi.eq_or_lt with rfl | hlt
      · obtain _ | ⟨token, others⟩ := tokens
        · exact .finished
        · -- there is no room for a token at the end
          have hle := (h.first token List.mem_cons_self).length_le
          have hpos := (h.first token List.mem_cons_self).length_pos
          have hafter := hafter token List.mem_cons_self
          rw [List.length_drop] at hle
          omega
      · have hc := List.getElem?_eq_getElem hlt
        refine .blank hc (h.blank i _ le_rfl hc fun t ht => .inl (hafter t ht)) ?_
        refine ih _ (by omega) ?_ hlt rfl
        exact ⟨hafter, h.increasing, h.apart, h.spelled,
          fun j d hj hd houtside => h.blank j d (by omega) hd houtside, h.first⟩

/-- A text that is cut up ends with its last token or with a blank. -/
theorem IsTokenization.endsWith {tokens : List Token} (h : IsTokenization 0 cs tokens) :
    EndsWith cs tokens := by
  intro c hc
  have hstop : ∀ t ∈ tokens, t.index < t.stop ∧ t.stop ≤ cs.length := by
    intro t ht
    have hle := (h.first t ht).length_le
    have hpos := (h.first t ht).length_pos
    have hstop : t.stop = t.index + t.text.toList.length := rfl
    rw [List.length_drop] at hle
    omega
  by_cases hend : ∃ t ∈ tokens, t.stop = cs.length
  · obtain ⟨t, ht, heq⟩ := hend
    refine .inl ⟨t, ?_, heq⟩
    obtain ⟨before, behind, rfl⟩ := List.append_of_mem ht
    obtain rfl : behind = [] := by
      -- a later token would begin behind the text
      refine List.eq_nil_iff_forall_not_mem.mpr fun later hlater => ?_
      have hapart := List.rel_of_pairwise_cons (List.pairwise_append.mp h.apart).2.1 hlater
      have := hstop later (by simp [hlater])
      omega
    simp
  · have hlt : ∀ t ∈ tokens, t.stop < cs.length := fun t ht =>
      lt_of_le_of_ne (hstop t ht).2 fun heq => hend ⟨t, ht, heq⟩
    refine .inr ⟨?_, hlt⟩
    rw [List.getLast?_eq_getElem?] at hc
    exact h.blank _ c (Nat.zero_le _) hc fun t ht => .inr (Nat.le_sub_one_of_lt (hlt t ht))

/-! ### Errors -/

theorem drop_take_append {n : Nat} (hi : i ≤ n) (hn : n ≤ cs.length) :
    (cs.take n).drop i ++ cs.drop n = cs.drop i := by
  rw [← List.drop_append_of_le_length (by rw [List.length_take]; omega), List.take_append_drop]

/-- Where the lexer stops, it is stuck, and all of the text in front has been read. -/
theorem Reads.of_error (h : Reads cs i result) : ∀ e, result = .error e →
    i ≤ e.index ∧ cs[e.index]? = some e.character ∧ IsStuck (cs.drop e.index) ∧
      ∃ tokens, Reads (cs.take e.index) i (.ok tokens) := by
  induction h with
  | finished => rintro _ ⟨⟩
  | @blank i c result hc hblank _ ih =>
    intro e hresult
    obtain ⟨hle, hcharacter, hstuck, tokens, htokens⟩ := ih e hresult
    refine ⟨by omega, hcharacter, hstuck, tokens, .blank ?_ hblank htokens⟩
    rw [List.getElem?_take_of_lt (by omega), hc]
  | @token i kind word result hfirst _ ih =>
    intro e hresult
    obtain e' | others := result
    · cases hresult
      obtain ⟨hle, hcharacter, hstuck, tokens, htokens⟩ := ih _ rfl
      have hlt := lt_length_of_getElem? hcharacter
      rw [← drop_take_append (by omega) hlt.le] at hfirst
      have hshort := hfirst.of_append (by rw [List.length_drop, List.length_take]; omega)
      exact ⟨by omega, hcharacter, hstuck, _, .token hshort htokens⟩
    · cases hresult
  | @stuck i c hc hstuck =>
    rintro _ ⟨⟩
    refine ⟨le_rfl, hc, hstuck, [], ?_⟩
    have hfinished : Reads (cs.take i) (cs.take i).length (.ok []) := .finished
    rwa [List.length_take, Nat.min_eq_left (lt_length_of_getElem? hc).le] at hfinished

/-- A text that can be read completely is read in the same way in front of one that separates. -/
theorem Reads.append {front tail : List Char} {more : Except LexicalError (List Token)}
    (htail : Separates tail) (hmore : Reads (front ++ tail) front.length more)
    (h : Reads front i result) :
    ∀ tokens, result = .ok tokens → Reads (front ++ tail) i (more.map (tokens ++ ·)) := by
  induction h with
  | finished =>
    rintro _ ⟨⟩
    cases more <;> exact hmore
  | @blank i c result hc hblank _ ih =>
    intro tokens hresult
    refine .blank ?_ hblank (ih tokens hresult)
    rw [List.getElem?_append_left (lt_length_of_getElem? hc), hc]
  | @token i kind word result hfirst _ ih =>
    intro tokens hresult
    obtain e | others := result
    · cases hresult
    cases hresult
    have hpos := hfirst.length_pos
    have hle := hfirst.length_le
    rw [List.length_drop] at hle
    have hlong := hfirst.append htail
    rw [← List.drop_append_of_le_length (by omega)] at hlong
    have hreads := Reads.token hlong (ih others rfl)
    cases more <;> exact hreads
  | stuck => rintro _ ⟨⟩

/-- Behind a text that can be read completely, the lexer stops where it is stuck. -/
theorem Reads.error_of_isStuck {n : Nat} (hc : cs[n]? = some c) (hstuck : IsStuck (cs.drop n))
    {tokens : List Token} (h : Reads (cs.take n) 0 (.ok tokens)) :
    Reads cs 0 (.error { character := c, index := n }) := by
  have hlength : (cs.take n).length = n := by
    rw [List.length_take, Nat.min_eq_left (lt_length_of_getElem? hc).le]
  have hmore : Reads (cs.take n ++ cs.drop n) (cs.take n).length
      (.error { character := c, index := n }) := by
    rw [List.take_append_drop, hlength]
    exact .stuck hc hstuck
  have hreads := Reads.append hstuck.separates hmore h tokens rfl
  rwa [List.take_append_drop] at hreads

end

/-! ### The tokens of a source -/

theorem tokenize_eq_scan (source : String) : tokenize source = scan source.toList 0 :=
  rfl

theorem tokenize_eq_iff_reads {source : String} {result : Except LexicalError (List Token)} :
    tokenize source = result ↔ Reads source.toList 0 result :=
  (reads_iff (Nat.zero_le _)).symm

/-- The lexer gives the tokens that cut up a source. It gives an error exactly at a place at which
it is stuck and in front of which the source is cut up, up to its end. -/
theorem tokenize_exact (source : String) :
    (∀ tokens, tokenize source = .ok tokens ↔ IsTokenization 0 source.toList tokens) ∧
    ∀ e, tokenize source = .error e ↔
      source.toList[e.index]? = some e.character ∧
      (∃ tokens, tokenize (String.ofList (source.toList.take e.index)) = .ok tokens ∧
        EndsWith (source.toList.take e.index) tokens) ∧
      IsStuck (source.toList.drop e.index) := by
  constructor
  · intro tokens
    rw [tokenize_eq_iff_reads]
    exact ⟨fun h => h.isTokenization tokens rfl, fun h => h.reads (Nat.zero_le _)⟩
  · intro e
    simp only [tokenize_eq_iff_reads, String.toList_ofList]
    constructor
    · intro h
      obtain ⟨-, hcharacter, hstuck, tokens, htokens⟩ := h.of_error e rfl
      exact ⟨hcharacter, ⟨tokens, htokens, (htokens.isTokenization tokens rfl).endsWith⟩, hstuck⟩
    · rintro ⟨hcharacter, ⟨tokens, htokens, -⟩, hstuck⟩
      exact htokens.error_of_isStuck hcharacter hstuck

end BlockScript

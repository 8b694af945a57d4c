import BlockScript.Proofs.Parser.Reading
import BlockScript.Proofs.Token.Tokenization
import Mathlib.Logic.Relation
/-!
# Layout

No token goes on behind a blank, and a token that begins behind a blank does not depend on what is in
front of the blank. So a text with a gap is read piece by piece, and what the gap consists of only
moves the tokens behind it. The same holds for a place between two tokens at which there is no gap
yet: the text in front of it is read without looking at what is behind.

## Main definitions

* `Token.moved`, `LexicalError.moved`, `Lexer.moved` — the same at a place further behind
* `IsBlank` — texts that may stand between tokens
* `Relays` — another gap at a place between tokens
* `HasSpelling` — kinds and texts of the tokens of a text

## Main results

* `tokenize_gap` — a text with a gap is read piece by piece
* `spelling_eq_of_relays` — another layout keeps kinds and texts of all tokens
* `exists_source_of_lexed` — every list of lexed tokens is spelled by a text
-/

namespace BlockScript

open Lexer Terminal

/-- The token at a place further behind. -/
def Token.moved (distance : Nat) (token : Token) : Token :=
  { token with index := distance + token.index }

/-- The error at a place further behind. -/
def LexicalError.moved (distance : Nat) (e : LexicalError) : LexicalError :=
  { e with index := distance + e.index }

/-- What is read of a text if it stands further behind. -/
def Lexer.moved (distance : Nat) :
    Except LexicalError (List Token) → Except LexicalError (List Token)
  | .ok tokens => .ok (tokens.map (Token.moved distance))
  | .error e => .error (e.moved distance)

@[simp] theorem Token.spelling_moved (distance : Nat) (token : Token) :
    (token.moved distance).spelling = token.spelling :=
  rfl

theorem Token.map_spelling_moved (distance : Nat) (tokens : List Token) :
    (tokens.map (Token.moved distance)).map Token.spelling = tokens.map Token.spelling := by
  rw [List.map_map]
  exact List.map_congr_left fun token _ => token.spelling_moved distance

/-- A text that may stand between tokens. -/
def IsBlank (text : String) : Prop :=
  ∀ c ∈ text.toList, c ∈ blanks

instance : DecidablePred IsBlank :=
  fun text => List.decidableBAll (· ∈ blanks) text.toList

/-! ### Reading behind other text -/

section

variable {cs front gap back : List Char} {i : Nat} {c : Char}
  {result : Except LexicalError (List Token)}

/-- What can be read of a text can also be read behind another text. -/
theorem Reads.behind (front : List Char) (h : Reads cs i result) :
    Reads (front ++ cs) (front.length + i) (moved front.length result) := by
  induction h with
  | finished =>
    rw [← List.length_append]
    exact .finished
  | @blank i c result hc hblank _ ih =>
    refine .blank ?_ hblank ih
    rw [List.getElem?_append_right (Nat.le_add_right _ _), Nat.add_sub_cancel_left, hc]
  | @token i kind word result hfirst _ ih =>
    have hdrop : (front ++ cs).drop (front.length + i) = cs.drop i :=
      List.drop_length_add_append i
    rw [← hdrop] at hfirst
    rw [← Nat.add_assoc] at ih
    have hreads := Reads.token hfirst ih
    cases result <;> exact hreads
  | @stuck i c hc hstuck =>
    refine .stuck ?_ ?_
    · rw [List.getElem?_append_right (Nat.le_add_right _ _), Nat.add_sub_cancel_left, hc]
    · rwa [List.drop_length_add_append]

theorem Reads.unique {other : Except LexicalError (List Token)} (h : Reads cs i result)
    (hother : Reads cs i other) : result = other :=
  h.scan_eq.symm.trans hother.scan_eq

/-- The tokens that are read behind a text are those of what is behind it. -/
theorem Reads.exists_of_behind {tokens : List Token}
    (h : Reads (front ++ cs) front.length (.ok tokens)) :
    ∃ own, Reads cs 0 (.ok own) ∧ tokens = own.map (Token.moved front.length) := by
  obtain ⟨result, hresult⟩ := exists_reads (Nat.zero_le cs.length)
  have heq := h.unique (hresult.behind front)
  cases result with
  | error e => cases heq
  | ok own => exact ⟨own, hresult, Except.ok.inj heq⟩

theorem reads_blank_iff (hc : cs[i]? = some c) (hblank : c ∈ blanks) :
    Reads cs i result ↔ Reads cs (i + 1) result := by
  refine ⟨fun h => ?_, .blank hc hblank⟩
  have hle : i + 1 ≤ cs.length := lt_length_of_getElem? hc
  obtain ⟨other, hother⟩ := exists_reads hle
  rwa [h.unique (.blank hc hblank hother)]

/-- A gap is passed over. -/
theorem reads_gap_iff (front : List Char) (hgap : ∀ c ∈ gap, c ∈ blanks) :
    Reads (front ++ (gap ++ back)) front.length result ↔
      Reads (front ++ (gap ++ back)) (front ++ gap).length result := by
  induction gap generalizing front with
  | nil => rw [List.append_nil]
  | cons c gap ih =>
    obtain ⟨hc, hgap⟩ := List.forall_mem_cons.mp hgap
    have hhead : (front ++ (c :: gap ++ back))[front.length]? = some c := by simp
    have ih := ih (front ++ [c]) hgap
    simp only [List.append_assoc, List.singleton_append, List.length_append,
      List.length_singleton] at ih
    rw [reads_blank_iff hhead hc, List.length_append]
    exact ih

/-- A text is read piece by piece if the place between the pieces is not inside a token. -/
theorem Reads.split {n : Nat} (hn : n ≤ cs.length) (h : Reads cs i result) :
    ∀ tokens, result = .ok tokens → i ≤ n →
      (∀ token ∈ tokens, token.stop ≤ n ∨ n ≤ token.index) →
      ∃ before behind, tokens = before ++ behind ∧ Reads (cs.take n) i (.ok before) ∧
        Reads cs n (.ok behind) := by
  have hlength : (cs.take n).length = n := by rw [List.length_take, Nat.min_eq_left hn]
  -- once the place is reached, all tokens are behind it
  have hreached : ∀ {tokens}, Reads cs n (.ok tokens) → ∃ before behind,
      tokens = before ++ behind ∧ Reads (cs.take n) n (.ok before) ∧ Reads cs n (.ok behind) := by
    intro tokens htokens
    have hfinished : Reads (cs.take n) (cs.take n).length (.ok []) := .finished
    rw [hlength] at hfinished
    exact ⟨[], tokens, rfl, hfinished, htokens⟩
  induction h with
  | finished =>
    rintro _ ⟨⟩ hle -
    obtain rfl : n = cs.length := Nat.le_antisymm hn hle
    exact hreached .finished
  | @blank i c result hc hblank hrest ih =>
    rintro tokens rfl hle hplace
    rcases hle.eq_or_lt with rfl | hlt
    · exact hreached (.blank hc hblank hrest)
    · obtain ⟨before, behind, rfl, hbefore, hbehind⟩ := ih tokens rfl hlt hplace
      refine ⟨before, behind, rfl, .blank ?_ hblank hbefore, hbehind⟩
      rw [List.getElem?_take_of_lt hlt, hc]
  | @token i kind word result hfirst hrest ih =>
    intro tokens hresult hle hplace
    obtain e | others := result
    · cases hresult
    cases hresult
    rcases hle.eq_or_lt with rfl | hlt
    · exact hreached (.token hfirst hrest)
    · obtain ⟨hhead, hplace⟩ := List.forall_mem_cons.mp hplace
      rw [stop_ofList] at hhead
      have hstop := hhead.resolve_right (Nat.not_le.mpr hlt)
      obtain ⟨before, behind, rfl, hbefore, hbehind⟩ := ih others rfl hstop hplace
      rw [← drop_take_append hle hn] at hfirst
      have hshort := hfirst.of_append (by rw [List.length_drop, hlength]; omega)
      exact ⟨_, behind, rfl, .token hshort hbefore, hbehind⟩
  | stuck => rintro _ ⟨⟩

end

/-! ### Gaps in source texts -/

/-- A text with a gap is read piece by piece. What is behind the gap is read as if it stood alone,
only further behind. -/
theorem tokenize_gap {front gap : String} (back : String) {tokens : List Token}
    (htokens : tokenize front = .ok tokens) (hgap : gap ≠ "") (hblank : IsBlank gap) :
    tokenize (front ++ gap ++ back) =
      (moved (front ++ gap).length (tokenize back)).map (tokens ++ ·) := by
  have hfront := tokenize_eq_iff_reads.mp htokens
  have hback := (tokenize_eq_iff_reads.mp rfl : Reads back.toList 0 (tokenize back))
  -- the gap has a first character, and no word goes on with it
  have hseparates : Separates (gap.toList ++ back.toList) := by
    have hne : gap.toList ≠ [] := fun hnil => hgap (String.toList_eq_nil_iff.mp hnil)
    obtain ⟨c, rest, hc⟩ := List.exists_cons_of_ne_nil hne
    rw [hc, List.cons_append]
    exact separates_of_mem_blanks (hblank c (by simp [hc]))
  have hbehind := hback.behind (front.toList ++ gap.toList)
  rw [List.append_assoc, Nat.add_zero, ← reads_gap_iff _ hblank] at hbehind
  have hreads := Reads.append hseparates hbehind hfront tokens rfl
  rw [tokenize_eq_iff_reads, String.toList_append, String.toList_append, List.append_assoc,
    ← String.length_toList, String.toList_append]
  exact hreads

/-- Another gap, which is not empty if the gap was not, at a place of a text between its tokens. -/
inductive Relays : String → String → Prop
  | intro {before gap gap' behind : String} {tokens : List Token} :
      tokenize (before ++ gap ++ behind) = .ok tokens →
      (∀ token ∈ tokens, token.stop ≤ before.length ∨ before.length ≤ token.index) →
      IsBlank gap → IsBlank gap' → (gap ≠ "" → gap' ≠ "") →
      Relays (before ++ gap ++ behind) (before ++ gap' ++ behind)

/-- The pieces around a gap are read for themselves. -/
theorem exists_tokenize_around {before gap behind : String} {tokens : List Token}
    (htokens : tokenize (before ++ gap ++ behind) = .ok tokens) (hgap : IsBlank gap)
    (hplace : ∀ token ∈ tokens, token.stop ≤ before.length ∨ before.length ≤ token.index) :
    ∃ left right, tokenize before = .ok left ∧ tokenize behind = .ok right ∧
      tokens = left ++ right.map (Token.moved (before ++ gap).length) := by
  have hreads := tokenize_eq_iff_reads.mp htokens
  rw [String.toList_append, String.toList_append, List.append_assoc] at hreads
  rw [← String.length_toList] at hplace
  obtain ⟨left, right, rfl, hleft, hright⟩ := hreads.split (n := before.toList.length)
    (by simp) tokens rfl (Nat.zero_le _) hplace
  rw [List.take_left] at hleft
  rw [reads_gap_iff _ hgap, ← List.append_assoc] at hright
  obtain ⟨own, hown, rfl⟩ := hright.exists_of_behind
  refine ⟨left, own, tokenize_eq_iff_reads.mpr hleft, tokenize_eq_iff_reads.mpr hown, ?_⟩
  rw [← String.toList_append, String.length_toList]

/-- Another gap keeps kinds and texts of all tokens. -/
theorem Relays.spelling_eq {source source' : String} (h : Relays source source') :
    ∃ tokens tokens', tokenize source = .ok tokens ∧ tokenize source' = .ok tokens' ∧
      tokens'.map Token.spelling = tokens.map Token.spelling := by
  obtain @⟨before, gap, gap', behind, tokens, htokens, hplace, hgap, hgap', hkeep⟩ := h
  by_cases hempty : gap' = ""
  · obtain rfl : gap = "" := by_contra fun hne => hkeep hne hempty
    subst hempty
    exact ⟨tokens, tokens, htokens, htokens, rfl⟩
  · obtain ⟨left, right, hleft, hright, rfl⟩ := exists_tokenize_around htokens hgap hplace
    refine ⟨_, left ++ right.map (Token.moved (before ++ gap').length), htokens, ?_, ?_⟩
    · rw [tokenize_gap behind hleft hempty hgap', hright]
      rfl
    · rw [List.map_append, List.map_append, Token.map_spelling_moved, Token.map_spelling_moved]

/-- Any number of other gaps keep kinds and texts of all tokens. -/
theorem spelling_eq_of_relays {source source' : String}
    (h : Relation.ReflTransGen Relays source source') {tokens : List Token}
    (htokens : tokenize source = .ok tokens) :
    ∃ tokens', tokenize source' = .ok tokens' ∧
      tokens'.map Token.spelling = tokens.map Token.spelling := by
  induction h with
  | refl => exact ⟨tokens, htokens, rfl⟩
  | tail _ hstep ih =>
    obtain ⟨middle, hmiddle, hsame⟩ := ih
    obtain ⟨middle', tokens', hmiddle', htokens', hsame'⟩ := hstep.spelling_eq
    rw [hmiddle] at hmiddle'
    cases hmiddle'
    exact ⟨tokens', htokens', hsame'.trans hsame⟩

/-! ### Texts of tokens -/

/-- A lexed token is read from its own text. -/
theorem Token.Lexed.tokenize_eq {token : Token} (h : token.Lexed) :
    tokenize token.text = .ok [{ token with index := 0 }] := by
  obtain ⟨word, hfirst, hlength⟩ := tokenAt?_eq_some_iff.mp h
  obtain rfl : word = token.text.toList :=
    hfirst.isPrefix.eq_of_length (by rw [hlength, String.length_toList])
  rw [tokenize_eq_iff_reads]
  have hreads := Reads.token (i := 0) hfirst (by rw [Nat.zero_add]; exact .finished)
  rwa [String.ofList_toList] at hreads

/-- The tokens of a text have these kinds and texts. -/
def HasSpelling (source : String) (spellings : List (TokenKind × String)) : Prop :=
  ∃ tokens, tokenize source = .ok tokens ∧ tokens.map Token.spelling = spellings

theorem hasSpelling_iff {source : String} {spellings : List (TokenKind × String)} :
    HasSpelling source spellings ↔
      (tokenize source).map (List.map Token.spelling) = .ok spellings := by
  unfold HasSpelling
  cases tokenize source <;> simp [Except.map]

/-- Texts with a gap between them spell what they spell by themselves. -/
theorem HasSpelling.append {front gap back : String} {spellings more : List (TokenKind × String)}
    (hfront : HasSpelling front spellings) (hgap : gap ≠ "") (hblank : IsBlank gap)
    (hback : HasSpelling back more) : HasSpelling (front ++ gap ++ back) (spellings ++ more) := by
  obtain ⟨tokens, htokens, rfl⟩ := hfront
  obtain ⟨behind, hbehind, rfl⟩ := hback
  refine ⟨tokens ++ behind.map (Token.moved (front ++ gap).length), ?_, ?_⟩
  · rw [tokenize_gap back htokens hgap hblank, hbehind]
    rfl
  · rw [List.map_append, Token.map_spelling_moved]

/-- What a text spells is lexed. -/
theorem HasSpelling.allLexed {source : String} {tokens : List Token}
    (h : HasSpelling source (tokens.map Token.spelling)) : Parser.AllLexed tokens := by
  obtain ⟨tokens', htokens', hsame⟩ := h
  intro token htoken
  have hspelled : token.spelling ∈ tokens'.map Token.spelling :=
    hsame ▸ List.mem_map_of_mem htoken
  obtain ⟨own, hown, heq⟩ := List.mem_map.mp hspelled
  obtain ⟨hkind, htext⟩ := Prod.mk.inj heq
  have hlexed : own.Lexed := Token.lexed_of_tokenize htokens' own hown
  rwa [Token.Lexed, hkind, htext] at hlexed

/-- Every list of lexed tokens is spelled by a text. -/
theorem exists_source_of_lexed {tokens : List Token} (h : Parser.AllLexed tokens) :
    ∃ source, HasSpelling source (tokens.map Token.spelling) := by
  induction tokens with
  | nil => exact ⟨"", [], rfl, rfl⟩
  | cons token rest ih =>
    obtain ⟨source, hsource⟩ := ih h.tail
    have htoken : HasSpelling token.text [token.spelling] := ⟨_, h.head.tokenize_eq, rfl⟩
    exact ⟨token.text ++ " " ++ source, htoken.append (by decide) (by decide) hsource⟩

end BlockScript

import Sentential.Proofs.Sentence.Errors
import Sentential.Proofs.Token.Spacing

/-!
# Gaps do not matter

Whether tokens are a sentence, which one, and if not for what reason, does not depend on the gaps
between them. Only the place of an error does.
-/

namespace Sentential

/-- The error without its place. -/
def ParseError.unplaced : ParseError → ParseError
  | unexpected expected found _ => unexpected expected found 0
  | tooDeep limit _ => tooDeep limit 0
  | unrecognised error => unrecognised ⟨error.text, 0⟩
  | empty => empty
  | label error => label error

namespace Pending

open Sentential.Parser

variable {room finish finish' : Nat} {state : State} {lexemes lexemes' : List Lexeme}

/-- The error at a place depends on the token there only, but for its place. -/
theorem State.map_unplaced_error? (h : next lexemes = next lexemes') :
    (state.error? room finish lexemes).map ParseError.unplaced =
      (state.error? room finish' lexemes').map ParseError.unplaced := by
  rw [error?, error?, h]
  split
  · rfl
  · split
    · rfl
    · simp only [Parser.unexpected, h, Option.map_some, ParseError.unplaced]

/-- The first error of a scan depends on the tokens only, but for its place. -/
theorem map_unplaced_firstError? (h : lexemes.map Lexeme.token = lexemes'.map Lexeme.token) :
    (firstError? room finish state lexemes).map ParseError.unplaced =
      (firstError? room finish' state lexemes').map ParseError.unplaced := by
  induction lexemes generalizing state lexemes' with
  | nil =>
    obtain rfl : lexemes' = [] := List.map_eq_nil_iff.mp h.symm
    exact State.map_unplaced_error? rfl
  | cons lexeme rest ih =>
    obtain ⟨lexeme', rest', rfl, htoken, hrest⟩ := List.map_eq_cons_iff.mp h.symm
    have hnext : next (lexeme :: rest) = next (lexeme' :: rest') := congrArg some htoken.symm
    rw [firstError?, firstError?, Option.map_or, Option.map_or, State.map_unplaced_error? hnext,
      htoken]
    cases step? state lexeme.token with
    | none => rfl
    | some later => exact congrArg _ (ih hrest.symm)

end Pending

namespace Parser

/-- Reading a sentence depends on the tokens only, but for the places of errors. -/
theorem mapError_unplaced_sentence {lexing lexing' : Lexing} (hw : AreWords lexing.lexemes)
    (hw' : AreWords lexing'.lexemes) (h : lexing.tokens = lexing'.tokens) :
    (sentence lexing).mapError ParseError.unplaced =
      (sentence lexing').mapError ParseError.unplaced := by
  have htokens : lexing.lexemes.map Lexeme.token = lexing'.lexemes.map Lexeme.token := h
  cases hs : sentence lexing with
  | ok s =>
    have hs' : sentence lexing' = .ok s := by
      rw [sentence_eq_ok_iff] at hs ⊢
      rw [← htokens]
      exact hs
    rw [hs']
  | error e =>
    by_cases hnil : lexing.lexemes = []
    · have hnil' : lexing'.lexemes = [] := by
        rw [hnil] at htokens
        exact List.map_eq_nil_iff.mp htokens.symm
      rw [sentence_eq_empty_iff.mpr hnil']
      rw [sentence_eq_empty_iff.mpr hnil] at hs
      rw [hs]
    · have hnil' : lexing'.lexemes ≠ [] := by
        intro hnil'
        rw [hnil'] at htokens
        exact hnil (List.map_eq_nil_iff.mp htokens)
      have hmap : (Pending.firstError? (maxNesting + 1) lexing.finish Pending.start
          lexing.lexemes).map ParseError.unplaced =
            (Pending.firstError? (maxNesting + 1) lexing'.finish Pending.start
              lexing'.lexemes).map ParseError.unplaced :=
        Pending.map_unplaced_firstError? htokens
      rw [(sentence_eq_error_iff hw hnil).mp hs, Option.map_some] at hmap
      obtain ⟨e', he', hplace⟩ := Option.map_eq_some_iff.mp hmap.symm
      rw [(sentence_eq_error_iff hw' hnil').mpr he']
      exact congrArg Except.error hplace.symm

end Parser

namespace Sentence

/-- Tokens are read as they are laid out, whatever the gaps: these have to be blank, and only
between labels there has to be one. What the tokens are parsed as does not depend on the gaps, but
for the places of errors. -/
theorem parse_text_of_isSpaced {l : Layout} (h : l.IsSpaced) :
    Lexing.ofText (String.ofList l.text) = .ok l.lexing ∧ l.lexing.tokens = l.tokens ∧
    ∀ m : Layout, m.IsSpaced → m.tokens = l.tokens →
      (parse (String.ofList m.text)).mapError ParseError.unplaced =
        (parse (String.ofList l.text)).mapError ParseError.unplaced := by
  have htokens (m : Layout) : m.lexing.tokens = m.tokens := Layout.map_token_lexemesFrom 0 m.words
  refine ⟨h.ofText_text, htokens l, fun m hm ht ↦ ?_⟩
  have hl := h.ofText_text
  have hm := hm.ofText_text
  rw [parse_eq, parse_eq, hl, hm]
  apply Parser.mapError_unplaced_sentence (Lexing.isWord_of_scan hm) (Lexing.isWord_of_scan hl)
  rw [htokens, htokens, ht]

private def crowded : Layout :=
  ⟨[([], .label "a"), ([], .connective .reduction), ([], .connective .implication),
    ([], .negation), ([], .label "b"), ([' '], .label "c")], []⟩

private def spacious : Layout :=
  ⟨[(['\t'], .label "a"), (['\u3000'], .connective .reduction),
    ([' ', '\n'], .connective .implication), ([' '], .negation), ([' '], .label "b"),
    ([' '], .label "c")], ['\u2003']⟩

/-- A reduction right before an implication is not an equivalence. -/
theorem parse_text_crowded :
    crowded.IsSpaced ∧ spacious.IsSpaced ∧ spacious.tokens = crowded.tokens ∧
    Lexing.ofText (String.ofList "a<==>-b c".toList) = .ok crowded.lexing ∧
    crowded.lexing.lexemes.map Lexeme.position = [0, 1, 3, 5, 6, 8] ∧
    (parse (String.ofList spacious.text)).mapError ParseError.unplaced =
      (parse (String.ofList "a<==>-b c".toList)).mapError ParseError.unplaced := by
  have hw : ∀ token ∈ crowded.tokens, token.IsWord := by
    have hlabels : isLabel ['a'] = true ∧ isLabel ['b'] = true ∧ isLabel ['c'] = true := by decide
    simpa [crowded, Layout.tokens, Token.IsWord] using hlabels
  have hblank : crowded.IsBlank ∧ spacious.IsBlank := by
    simp [Layout.IsBlank, crowded, spacious, isBlank, blankRanges]
  have hc : crowded.IsSpaced := ⟨hblank.1, hw, by simp [crowded, Layout.AreSeparated]⟩
  have hs : spacious.IsSpaced := ⟨hblank.2, hw, by simp [spacious, Layout.AreSeparated]⟩
  have ht : spacious.tokens = crowded.tokens := rfl
  obtain ⟨hread, -, hparse⟩ := parse_text_of_isSpaced hc
  exact ⟨hc, hs, ht, hread, by decide, hparse spacious hs ht⟩

end Sentence

end Sentential

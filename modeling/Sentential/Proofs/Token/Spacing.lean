import Sentential.Proofs.Token.Decomposition

/-!
# Gaps between tokens

Words with blank gaps are as long as they can be unless two labels stand next to each other with no
gap between them: no other token goes on with what the next one begins with. So tokens are read as
they are laid out, whatever the other gaps are.
-/

namespace Sentential

namespace Token

/-- Of the characters that tokens begin with, labels are continued by those of labels, and `<=` is
continued by none. -/
theorem head?_spelling {token : Token} (hw : token.IsWord) {c : Char}
    (hc : c ∈ token.spelling.toList.head?) :
    (isLabelPart c = true ↔ ∃ text, token = .label text) ∧ c ≠ '>' := by
  cases token with
  | label text =>
    obtain ⟨d, others, ht, hd, -⟩ := exists_of_isLabel hw
    rw [spelling, ht] at hc
    obtain rfl : d = c := Option.some.inj hc
    have hpart := isLabelPart_of_isLabelStart hd
    refine ⟨iff_of_true hpart ⟨text, rfl⟩, ?_⟩
    rintro rfl
    exact absurd hd (by decide)
  | connective k =>
    have hsymbol : isLabelPart c = false ∧ c ≠ '>' := by
      cases k <;> obtain rfl := Option.some.inj hc <;> decide
    refine ⟨iff_of_false (by simp [hsymbol.1]) ?_, hsymbol.2⟩
    rintro ⟨text, h⟩
    cases h
  | negation | leftParenthesis | rightParenthesis =>
    obtain rfl := Option.some.inj hc
    refine ⟨iff_of_false (by decide) ?_, by decide⟩
    rintro ⟨text, h⟩
    cases h

end Token

namespace Layout

/-- The gaps are blank and the tokens are words; a gap has to be between two labels only. -/
structure IsSpaced (l : Layout) : Prop where
  isBlank : l.IsBlank
  isWord : ∀ token ∈ l.tokens, token.IsWord
  areSeparated : AreSeparated l.words

/-- A label stands right before another one. -/
def Touches : Token → List (List Char × Token) → Prop
  | .label _, ([], .label _) :: _ => True
  | _, _ => False

/-- Words are separated if the first does not touch the next and the others are. -/
theorem areSeparated_cons {gap : List Char} {token : Token} {more : List (List Char × Token)} :
    AreSeparated ((gap, token) :: more) ↔ ¬Touches token more ∧ AreSeparated more := by
  cases token with
  | label text =>
    match more with
    | [] => simp [AreSeparated, Touches]
    | ([], .label _) :: _ => simp [AreSeparated, Touches]
    | (_ :: _, .label _) :: _ => simp [AreSeparated, Touches]
    | (_, .negation) :: _ | (_, .connective _) :: _ | (_, .leftParenthesis) :: _
    | (_, .rightParenthesis) :: _ => simp [AreSeparated, Touches]
  | negation | connective | leftParenthesis | rightParenthesis => simp [AreSeparated, Touches]

variable {words : List (List Char × Token)} {tail : List Char}

/-- A text of words begins with a blank, or with the first word if that has no gap. -/
theorem head?_spread (hg : ∀ word ∈ words, ∀ c ∈ word.1, isBlank c = true)
    (ht : ∀ c ∈ tail, isBlank c = true) (hw : ∀ word ∈ words, word.2.IsWord) {c : Char}
    (hc : c ∈ (spread words tail).head?) :
    isBlank c = true ∨ ∃ token more, words = ([], token) :: more ∧
      c ∈ token.spelling.toList.head? := by
  match words with
  | [] => exact .inl (ht c (List.mem_of_mem_head? hc))
  | ([], token) :: more =>
    obtain ⟨d, others, hcons, -⟩ := Token.exists_spelling_eq_cons (hw _ List.mem_cons_self)
    rw [spread, hcons] at hc
    refine .inr ⟨token, more, rfl, ?_⟩
    rw [hcons]
    exact hc
  | (d :: gap, token) :: more =>
    obtain rfl : d = c := Option.some.inj hc
    exact .inl (hg _ List.mem_cons_self d List.mem_cons_self)

/-- A word ends where it has to unless it is a label that touches the next one. -/
theorem endsBefore_spread_iff {token : Token}
    (hg : ∀ word ∈ words, ∀ c ∈ word.1, isBlank c = true) (ht : ∀ c ∈ tail, isBlank c = true)
    (hw : ∀ word ∈ words, word.2.IsWord) :
    EndsBefore token (spread words tail) ↔ ¬Touches token words := by
  cases token with
  | label text =>
    constructor
    · intro hends htouches
      match words with
      | ([], .label next) :: more =>
        obtain ⟨c, others, hcons, -⟩ := Token.exists_of_isLabel (hw _ List.mem_cons_self)
        have hc : c ∈ next.toList.head? := by rw [hcons]; rfl
        have hpart := (Token.head?_spelling (hw _ List.mem_cons_self) hc).1.mpr ⟨next, rfl⟩
        have hstop : isLabelPart c = false := by
          apply hends c
          rw [spread, Token.spelling, hcons]
          rfl
        rw [hstop] at hpart
        cases hpart
    · intro hapart c hc
      rw [Bool.eq_false_iff]
      intro hpart
      rcases head?_spread hg ht hw hc with hblank | ⟨token, more, rfl, hfirst⟩
      · rw [not_isBlank_of_isLabelPart hpart] at hblank
        cases hblank
      · obtain ⟨next, rfl⟩ := (Token.head?_spelling (hw _ List.mem_cons_self) hfirst).1.mp hpart
        exact hapart trivial
  | connective k =>
    refine iff_of_true ?_ id
    cases k with
    | reduction =>
      intro hc
      rcases head?_spread hg ht hw hc with hblank | ⟨token, more, rfl, hfirst⟩
      · exact absurd hblank (by decide)
      · exact (Token.head?_spelling (hw _ List.mem_cons_self) hfirst).2 rfl
    | conjunction | disjunction | implication | equivalence => trivial
  | negation | leftParenthesis | rightParenthesis => exact iff_of_true trivial id

/-- Words with blank gaps are as long as they can be exactly if labels are separated. -/
theorem areLongest_iff_areSeparated (hg : ∀ word ∈ words, ∀ c ∈ word.1, isBlank c = true)
    (ht : ∀ c ∈ tail, isBlank c = true) (hw : ∀ word ∈ words, word.2.IsWord) :
    AreLongest words tail ↔ AreSeparated words := by
  induction words with
  | nil => exact iff_of_true trivial trivial
  | cons word words ih =>
    obtain ⟨gap, token⟩ := word
    rw [List.forall_mem_cons] at hg hw
    rw [AreLongest, areSeparated_cons, endsBefore_spread_iff hg.2 ht hw.2, ih hg.2 hw.2]
    exact and_iff_right hw.1

/-- The tokens of a layout whose gaps are blank are as long as they can be, if labels are
separated. -/
theorem IsSpaced.isCanonical {l : Layout} (h : l.IsSpaced) : l.IsCanonical := by
  obtain ⟨⟨hg, ht⟩, hw, hs⟩ := h
  refine ⟨⟨hg, ht⟩, (areLongest_iff_areSeparated hg ht fun word hm ↦ ?_).mpr hs⟩
  exact hw _ (List.mem_map_of_mem hm)

/-- Tokens are read as they are laid out. -/
theorem IsSpaced.ofText_text {l : Layout} (h : l.IsSpaced) :
    Lexing.ofText (String.ofList l.text) = .ok l.lexing :=
  Lexing.ofText_of_isCanonical h.isCanonical String.toList_ofList.symm

end Layout

end Sentential

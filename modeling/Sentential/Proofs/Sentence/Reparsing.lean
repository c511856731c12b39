import Sentential.Proofs.Parser.Acceptance
import Sentential.Proofs.Sentence.Written

/-!
# Reading the text of a sentence

The text of a sentence without sets is read as that sentence, unless its operands stand too deep.
The text of any other sentence is refused at its first brace: all that comes before it are words.
-/

namespace Sentential

namespace Lexing

/-! ### Braces -/

/-- No blank is a brace. -/
theorem ne_brace_of_isBlank {c : Char} (h : isBlank c = true) : c ≠ '{' := by
  rintro rfl
  exact absurd h (by decide)

/-- No label has a brace in it. -/
theorem ne_brace_of_isLabelPart {c : Char} (h : isLabelPart c = true) : c ≠ '{' := by
  rintro rfl
  exact absurd h (by decide)

/-- No token has a brace in it. -/
theorem ne_brace_of_mem_spelling {token : Token} (hw : token.IsWord) {c : Char}
    (hc : c ∈ token.spelling.toList) : c ≠ '{' := by
  cases token with
  | label text =>
    obtain ⟨d, others, he, hd, ho⟩ := Token.exists_of_isLabel hw
    rw [Token.spelling, he, List.mem_cons] at hc
    rcases hc with rfl | hc
    · rintro rfl
      exact absurd hd (by decide)
    · exact ne_brace_of_isLabelPart (ho c hc)
  | connective k =>
    have hall : k.symbol.toList.all (· ≠ '{') = true := by cases k <;> rfl
    exact of_decide_eq_true (List.all_eq_true.mp hall c hc)
  | negation =>
    obtain rfl : c = '-' := List.mem_singleton.mp hc
    decide
  | leftParenthesis =>
    obtain rfl : c = '(' := List.mem_singleton.mp hc
    decide
  | rightParenthesis =>
    obtain rfl : c = ')' := List.mem_singleton.mp hc
    decide

/-- Words have no brace in them. -/
theorem ne_brace_of_mem_spread {words : List (List Char × Token)}
    (hg : ∀ word ∈ words, ∀ c ∈ word.1, isBlank c = true) {after : List Char}
    (hw : Layout.AreLongest words after) {c : Char} (hc : c ∈ Layout.spread words []) :
    c ≠ '{' := by
  induction words with
  | nil => cases hc
  | cons word words ih =>
    obtain ⟨gap, token⟩ := word
    obtain ⟨htoken, -, hwords⟩ := hw
    rw [Layout.spread, List.mem_append, List.mem_append] at hc
    rcases hc with hc | hc | hc
    · exact ne_brace_of_isBlank (hg _ List.mem_cons_self c hc)
    · exact ne_brace_of_mem_spelling htoken hc
    · exact ih (fun word hm ↦ hg word (List.mem_cons_of_mem _ hm)) hwords hc

/-- The text has a brace, and the first of them is where it does not go on with a token. -/
def StopsAtBrace (cs : List Char) : Prop :=
  '{' ∈ cs ∧ ∀ position, ∃ e, scan position cs = .error e ∧
    e.position = position + utf8Length (cs.takeWhile (· ≠ '{'))

/-- No token begins with a brace. -/
theorem stopsAtBrace_brace (after : List Char) : StopsAtBrace ('{' :: after) := by
  refine ⟨List.mem_cons_self, fun position ↦ ?_⟩
  have hread : Token.read? ('{' :: after) = none := rfl
  exact ⟨_, scan_of_not_read? (by decide) hread position, by simp [utf8Length]⟩

/-- What is passed over before the brace only moves it. -/
theorem StopsAtBrace.append {cs first : List Char} (h : StopsAtBrace cs)
    (hb : ∀ c ∈ first, c ≠ '{')
    (hs : ∀ position e, scan (position + utf8Length first) cs = .error e →
      scan position (first ++ cs) = .error e) :
    StopsAtBrace (first ++ cs) := by
  refine ⟨List.mem_append_right first h.1, fun position ↦ ?_⟩
  obtain ⟨e, he, hp⟩ := h.2 (position + utf8Length first)
  refine ⟨e, hs position e he, ?_⟩
  have hfirst : ∀ c ∈ first, decide (c ≠ '{') = true := by simpa using hb
  rw [hp, List.takeWhile_append_of_pos hfirst, utf8Length_append, Nat.add_assoc]

/-- A gap may come before the brace. -/
theorem StopsAtBrace.gap {cs gap : List Char} (h : StopsAtBrace cs)
    (hg : ∀ c ∈ gap, isBlank c = true) : StopsAtBrace (gap ++ cs) := by
  apply h.append
  · intro c hc
    exact ne_brace_of_isBlank (hg c hc)
  · intro position e he
    rw [scan_gap_append hg, he]

/-- Words may come before the brace. -/
theorem StopsAtBrace.spread {words : List (List Char × Token)} {cs : List Char}
    (h : StopsAtBrace cs) (hg : ∀ word ∈ words, ∀ c ∈ word.1, isBlank c = true)
    (hw : Layout.AreLongest words cs) : StopsAtBrace (Layout.spread words cs) := by
  rw [Layout.spread_eq_append]
  apply h.append
  · intro c hc
    exact ne_brace_of_mem_spread hg hw hc
  · intro position e he
    rw [← Layout.spread_eq_append, scan_spread hg hw, he]
    rfl

/-- A word without a gap may come before the brace. -/
theorem StopsAtBrace.word {token : Token} {cs : List Char} (h : StopsAtBrace cs)
    (hw : token.IsWord) (he : Layout.EndsBefore token cs) :
    StopsAtBrace (token.spelling.toList ++ cs) := by
  have hg : ∀ word ∈ [(([] : List Char), token)], ∀ c ∈ word.1, isBlank c = true := by
    intro word hm c hc
    rw [List.mem_singleton.mp hm] at hc
    cases hc
  exact h.spread hg ⟨hw, he, trivial⟩

/-- A connective between spaces may come before the brace. -/
theorem StopsAtBrace.connective {cs : List Char} (h : StopsAtBrace cs) (c : Connective) :
    StopsAtBrace (' ' :: (c.symbol.toList ++ (' ' :: cs))) := by
  have hc : StopsAtBrace ((Token.connective c).spelling.toList ++ (' ' :: cs)) :=
    (h.gap Layout.isBlank_space).word trivial (Layout.endsBefore_connective_space c cs)
  exact hc.gap Layout.isBlank_space

end Lexing

namespace Sentence

open Grammar Lexing

/-! ### Sentences with sets -/

/-- Parentheses around an operand do not keep its brace from being the first. -/
theorem stopsAtBrace_parenthesise {text : String}
    (h : ∀ after, StopsAtBrace (text.toList ++ after)) (asked : Bool) (after : List Char) :
    StopsAtBrace ((parenthesise asked text).toList ++ after) := by
  cases asked with
  | false => exact h after
  | true =>
    have hw : Token.leftParenthesis.IsWord := trivial
    rw [parenthesise_true_append]
    exact (h _).word hw trivial

/-- The text of a sentence with a set stops at its first brace, whatever comes after it. -/
theorem stopsAtBrace_text {s : Sentence} (h : s.isSetFree = false) (after : List Char) :
    StopsAtBrace (s.text.toList ++ after) := by
  induction s generalizing after with
  | atom v => cases h
  | negation target ih =>
    have ht := stopsAtBrace_parenthesise (fun after ↦ ih h after) target.hasMultiple after
    have hw : Token.negation.IsWord := trivial
    rw [text_negation_append]
    exact ht.word hw trivial
  | binary c l r ihl ihr =>
    rw [text_binary_append]
    -- the first brace is in the left operand, or else all of that operand is words
    cases hl : l.isSetFree with
    | false => exact stopsAtBrace_parenthesise (fun after ↦ ihl hl after) l.hasMultiple _
    | true =>
      have hr : r.isSetFree = false := by
        rw [isSetFree, hl] at h
        exact h
      obtain ⟨t, ht⟩ := Tree.exists_isTextOf hl
      obtain ⟨u, hu⟩ := ht.exists_isOperandOf
      have hright :=
        (stopsAtBrace_parenthesise (fun after ↦ ihr hr after) r.hasMultiple after).connective c
      rw [← hu.spread_words_eq]
      apply hright.spread u.isBlank_words_nil
      exact u.areLongest_words [] (Layout.not_isLabelPart_head (by decide) _)
  | set members =>
    rw [text_set_append]
    exact stopsAtBrace_brace _

/-- The text of a sentence with a set is refused at its first brace. -/
theorem parse_text_of_not_isSetFree {s : Sentence} (h : s.isSetFree = false) :
    '{' ∈ s.text.toList ∧ ∃ e, parse s.text = .error (.unrecognised e) ∧
      e.position = utf8Length (s.text.toList.takeWhile (· ≠ '{')) := by
  have hstop := stopsAtBrace_text h []
  rw [List.append_nil] at hstop
  obtain ⟨e, he, hp⟩ := hstop.2 0
  refine ⟨hstop.1, e, ?_, ?_⟩
  · rw [parse_eq, ofText, he]
  · rw [hp, Nat.zero_add]

/-! ### Sentences without sets -/

/-- The text of a formed tree is read as its sentence, unless the tree is nested too deep. -/
theorem parse_text_of_isFormed {t : Tree} (ht : t.IsFormed) :
    (t.nesting ≤ maxNesting → parse t.text = .ok t.sentence) ∧
    (maxNesting < t.nesting →
      ∃ position, parse t.text = .error (.tooDeep maxNesting position)) := by
  obtain ⟨lexing, hl, hy⟩ := t.exists_ofText_text
  have hparse : parse t.text = Parser.sentence lexing := by rw [parse_eq, hl]
  rw [hparse]
  exact Parser.sentence_of_yield ht hy

/-- The text of a sentence without sets is read as that sentence, unless its operands stand too
deep. -/
theorem parse_text_of_isSetFree {s : Sentence} (h : s.isSetFree = true) :
    (s.textNesting ≤ maxNesting → parse s.text = .ok s) ∧
    (maxNesting < s.textNesting →
      ∃ position, parse s.text = .error (.tooDeep maxNesting position)) := by
  obtain ⟨t, ht⟩ := Tree.exists_isTextOf h
  have hread := parse_text_of_isFormed ht.isFormed
  rw [ht.text_eq, ht.sentence_eq, ht.nesting_eq] at hread
  exact hread

/-- Reading the text of a sentence gives the sentence back, or fails for one of two reasons: there
is a set in the sentence, whose brace is no token, or an operand stands on more than 256 levels. -/
theorem parse_text_outcome (s : Sentence) :
    (s.isSetFree = false → '{' ∈ s.text.toList ∧ ∃ e, parse s.text = .error (.unrecognised e) ∧
      e.position = utf8Length (s.text.toList.takeWhile (· ≠ '{'))) ∧
    (s.isSetFree = true →
      (s.textNesting ≤ 256 → parse s.text = .ok s) ∧
      (256 < s.textNesting → ∃ position, parse s.text = .error (.tooDeep 256 position))) :=
  ⟨parse_text_of_not_isSetFree, parse_text_of_isSetFree⟩

end Sentence

end Sentential

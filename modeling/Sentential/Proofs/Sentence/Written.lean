import Sentential.Proofs.Grammar.Formed
import Sentential.Proofs.Token.Decomposition
import Sentential.Sentence.Display
import Sentential.Sentence.Nesting

/-!
# The words of a text of a sentence

The text of a sentence without sets is that of a formed tree: the parentheses around operands
with two parts are more than the grammar asks for, so every operand binds as tightly as its
place can ask for. The words of the tree stand next to each other, but for a space on either
side of a connective.
-/

namespace Sentential

namespace Grammar

namespace Tree

/-- The words of a tree with a gap before the first of them. Connectives have a space on either
side. -/
def words (gap : List Char) : Tree → List (List Char × Token)
  | label v => [(gap, .label v.label)]
  | grouped inner => (gap, .leftParenthesis) :: (inner.words [] ++ [([], .rightParenthesis)])
  | negated target => (gap, .negation) :: target.words []
  | joined connective left right =>
    left.words gap ++ ([' '], .connective connective) :: right.words [' ']

/-- The words of a tree are its tokens. -/
theorem map_snd_words (gap : List Char) (t : Tree) : (t.words gap).map Prod.snd = t.yield := by
  induction t generalizing gap with
  | label v => rfl
  | grouped inner ih => rw [words, List.map_cons, List.map_append, ih]; rfl
  | negated target ih => rw [words, List.map_cons, ih]; rfl
  | joined c left right ihl ihr => rw [words, List.map_append, List.map_cons, ihl, ihr]; rfl

/-- The gaps within a tree are blank. -/
theorem isBlank_words {gap : List Char} (hg : ∀ c ∈ gap, isBlank c = true) (t : Tree) :
    ∀ word ∈ t.words gap, ∀ c ∈ word.1, isBlank c = true := by
  have hnone : ∀ c ∈ ([] : List Char), isBlank c = true := fun c hc ↦ nomatch hc
  induction t generalizing gap with
  | label v =>
    intro word hm
    rw [List.mem_singleton.mp hm]
    exact hg
  | grouped inner ih =>
    intro word hm
    rw [words, List.mem_cons, List.mem_append, List.mem_singleton] at hm
    rcases hm with rfl | hm | rfl
    · exact hg
    · exact ih hnone word hm
    · exact hnone
  | negated target ih =>
    intro word hm
    rw [words, List.mem_cons] at hm
    rcases hm with rfl | hm
    · exact hg
    · exact ih hnone word hm
  | joined c left right ihl ihr =>
    intro word hm
    rw [words, List.mem_append, List.mem_cons] at hm
    rcases hm with hm | rfl | hm
    · exact ihl hg word hm
    · exact Layout.isBlank_space
    · exact ihr Layout.isBlank_space word hm

/-- With no gap before the first word all gaps of a tree are blank. -/
theorem isBlank_words_nil (t : Tree) : ∀ word ∈ t.words [], ∀ c ∈ word.1, isBlank c = true := by
  apply isBlank_words
  intro c hc
  cases hc

/-- The gap stands before the text of the tree. -/
theorem spread_words (gap : List Char) (t : Tree) (tail : List Char) :
    Layout.spread (t.words gap) tail = gap ++ Layout.spread (t.words []) tail := by
  induction t generalizing gap tail with
  | label v => rfl
  | grouped inner ih => rfl
  | negated target ih => rfl
  | joined c left right ihl ihr =>
    rw [words, words, Layout.spread_append, Layout.spread_append, ihl]

/-- Words of a tree end where they have to, if the last of them does. -/
theorem areLongest_words (gap : List Char) (t : Tree) {after : List Char}
    (h : ∀ c ∈ after.head?, isLabelPart c = false) : Layout.AreLongest (t.words gap) after := by
  induction t generalizing gap after with
  | label v => exact ⟨v.isLabel_label, h, trivial⟩
  | grouped inner ih =>
    refine ⟨trivial, trivial, Layout.areLongest_append.mpr ⟨ih [] ?_, trivial, trivial, trivial⟩⟩
    exact Layout.not_isLabelPart_head (by decide) after
  | negated target ih => exact ⟨trivial, trivial, ih [] h⟩
  | joined c left right ihl ihr =>
    refine Layout.areLongest_append.mpr ⟨ihl gap ?_, trivial, ?_, ihr [' '] h⟩
    · exact Layout.not_isLabelPart_head (by decide) _
    · rw [spread_words]
      exact Layout.endsBefore_connective_space c _

/-- The text of a tree. -/
def text (t : Tree) : String := String.ofList (Layout.spread (t.words []) [])

/-- The text of a tree is read as its tokens. -/
theorem exists_ofText_text (t : Tree) :
    ∃ lexing, Lexing.ofText t.text = .ok lexing ∧
      t.yield = lexing.lexemes.map Lexeme.token := by
  have hends : Layout.AreLongest (t.words []) [] := t.areLongest_words [] fun c hc ↦ nomatch hc
  have hcanonical : (Layout.mk (t.words []) []).IsCanonical :=
    ⟨⟨t.isBlank_words_nil, List.forall_mem_nil _⟩, hends⟩
  refine ⟨_, Lexing.ofText_of_isCanonical hcanonical String.toList_ofList.symm, ?_⟩
  rw [Layout.lexing, Layout.map_token_lexemesFrom, t.map_snd_words]

/-! ### The tree of a sentence -/

/-- The text of a sentence is that of the tree. -/
structure IsTextOf (t : Tree) (s : Sentence) : Prop where
  isFormed : t.IsFormed
  sentence_eq : t.sentence = s
  nesting_eq : t.nesting = s.textNesting
  spread_words_eq : ∀ tail, Layout.spread (t.words []) tail = s.text.toList ++ tail

/-- The text of a sentence as an operand is that of the tree. -/
structure IsOperandOf (t : Tree) (s : Sentence) : Prop where
  isFormed : t.IsFormed
  exceeds : ∀ power, t.Exceeds power
  sentence_eq : t.sentence = s
  nesting_eq : t.nesting = s.textNesting + s.operandLevels
  spread_words_eq : ∀ tail, Layout.spread (t.words []) tail =
    (parenthesise s.hasMultiple s.text).toList ++ tail

/-- The text of the tree is the text of the sentence. -/
theorem IsTextOf.text_eq {t : Tree} {s : Sentence} (h : t.IsTextOf s) : t.text = s.text := by
  rw [text, h.spread_words_eq, List.append_nil, String.ofList_toList]

/-- Only joined trees have two parts without parentheses. -/
theorem exceeds_of_not_hasMultiple {t : Tree} (h : t.sentence.hasMultiple = false) (power : Nat) :
    t.Exceeds power := by
  cases t with
  | joined c left right =>
    rw [sentence] at h
    cases h
  | label v => exact exceeds_label power v
  | grouped inner => exact exceeds_grouped power inner
  | negated target => exact exceeds_negated power target

/-- Parentheses make an operand of a tree, where there have to be any. -/
theorem IsTextOf.exists_isOperandOf {t : Tree} {s : Sentence} (h : t.IsTextOf s) :
    ∃ u : Tree, u.IsOperandOf s := by
  cases hm : s.hasMultiple with
  | true =>
    refine ⟨.grouped t, h.isFormed, fun power ↦ exceeds_grouped power t, h.sentence_eq, ?_, ?_⟩
    · rw [nesting, h.nesting_eq, Sentence.operandLevels, if_pos hm, Nat.add_comm]
    · intro tail
      rw [words, Layout.spread, Layout.spread_append, h.spread_words_eq, hm,
        parenthesise_true_append]
      rfl
  | false =>
    refine ⟨t, h.isFormed, exceeds_of_not_hasMultiple (by rw [h.sentence_eq, hm]), h.sentence_eq,
      ?_, ?_⟩
    · rw [h.nesting_eq, Sentence.operandLevels, hm]
      rfl
    · intro tail
      rw [h.spread_words_eq, hm]
      rfl

/-- Every operand ends before any connective. -/
theorem IsOperandOf.endsBefore {t : Tree} {s : Sentence} (h : t.IsOperandOf s) (c : Connective) :
    t.EndsBefore c.bindingPower :=
  (h.exceeds _).endsBefore_of_le (Nat.le_refl _) (Nat.le_of_lt c.bindingPower_lt_negation)

/-- A label is the text of its atom. -/
theorem isTextOf_atom (v : Variable) : (label v).IsTextOf (.atom v) :=
  ⟨trivial, rfl, rfl, fun _ ↦ rfl⟩

/-- A sign and an operand are the text of a negation. -/
theorem IsOperandOf.negated {t : Tree} {s : Sentence} (h : t.IsOperandOf s) :
    (negated t).IsTextOf (.negation s) := by
  refine ⟨⟨h.isFormed, h.exceeds _⟩, ?_, ?_, fun tail ↦ ?_⟩
  · rw [sentence, h.sentence_eq]
  · rw [nesting, h.nesting_eq, Sentence.textNesting]
  · rw [words, Layout.spread, h.spread_words_eq, Sentence.text_negation_append]
    rfl

/-- Two operands and a connective between them are the text of both together. -/
theorem IsOperandOf.joined {t u : Tree} {l r : Sentence} (c : Connective) (ht : t.IsOperandOf l)
    (hu : u.IsOperandOf r) : (joined c t u).IsTextOf (.binary c l r) := by
  refine ⟨⟨⟨ht.isFormed, ht.endsBefore c⟩, hu.isFormed, hu.exceeds _⟩, ?_, ?_, fun tail ↦ ?_⟩
  · rw [sentence, ht.sentence_eq, hu.sentence_eq]
  · rw [nesting, ht.nesting_eq, hu.nesting_eq, Sentence.textNesting]
  · rw [words, Layout.spread_append, ht.spread_words_eq, Layout.spread, spread_words,
      hu.spread_words_eq, Sentence.text_binary_append]
    rfl

/-- Every sentence without sets has the text of a formed tree. -/
theorem exists_isTextOf {s : Sentence} (h : s.isSetFree = true) : ∃ t : Tree, t.IsTextOf s := by
  induction s with
  | atom v => exact ⟨label v, isTextOf_atom v⟩
  | negation target ih =>
    obtain ⟨t, ht⟩ := ih h
    obtain ⟨u, hu⟩ := ht.exists_isOperandOf
    exact ⟨Tree.negated u, hu.negated⟩
  | binary c l r ihl ihr =>
    rw [Sentence.isSetFree, Bool.and_eq_true] at h
    obtain ⟨t, ht⟩ := ihl h.1
    obtain ⟨t', ht'⟩ := ht.exists_isOperandOf
    obtain ⟨u, hu⟩ := ihr h.2
    obtain ⟨u', hu'⟩ := hu.exists_isOperandOf
    exact ⟨Tree.joined c t' u', ht'.joined c hu'⟩
  | set members => cases h

end Tree

end Grammar

end Sentential

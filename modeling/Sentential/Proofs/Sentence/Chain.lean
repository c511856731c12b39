import Sentential.Proofs.Sentence.Reparsing

/-!
# Flat chains

Operators of one power are read from left to right, so a chain of them is flat as a text and
leans to the left as a sentence. However long the chain, its text needs one level only; the text
of its sentence has parentheses around every left operand and needs a level for each of them.
-/

namespace Sentential

open Grammar

namespace Grammar.Tree

/-- A variable followed by so many times a connective and the same variable. -/
def chain (c : Connective) (v : Variable) : Nat → Tree
  | 0 => label v
  | n + 1 => joined c (chain c v n) (label v)

variable (c : Connective) (v : Variable)

/-- Chains are read from left to right. -/
theorem isFormed_chain (n : Nat) : (chain c v n).IsFormed := by
  induction n with
  | zero => trivial
  | succ n ih =>
    refine ⟨⟨ih, ?_⟩, trivial, exceeds_label _ v⟩
    cases n with
    | zero => trivial
    | succ n => exact endsBefore_joined.mpr (Nat.le_refl _)

/-- A chain has no operand below the first level. -/
theorem nesting_chain_le (n : Nat) : (chain c v n).nesting ≤ 1 := by
  induction n with
  | zero => exact Nat.zero_le 1
  | succ n ih =>
    rw [chain, nesting, nesting]
    omega

/-- The operands of a joined tree are written before and after its connective. -/
theorem text_joined (t u : Tree) :
    (joined c t u).text = t.text ++ (" " ++ c.symbol ++ " " ++ u.text) := by
  apply String.toList_injective
  rw [text, words, Layout.spread_append, Layout.spread_eq_append, Layout.spread,
    spread_words [' '] u]
  simp [text, Token.spelling, String.toList_append]

/-- A chain is written without parentheses. -/
theorem text_chain (n : Nat) :
    (chain c v n).text =
      v.label ++ String.join (List.replicate n (" " ++ c.symbol ++ " " ++ v.label)) := by
  have hlabel : (label v).text = v.label := by
    simp [text, words, Layout.spread, Token.spelling]
  induction n with
  | zero => simp [chain, hlabel]
  | succ n ih =>
    rw [chain, text_joined, ih, hlabel, List.replicate_succ', String.join_append,
      String.append_assoc]
    simp

end Grammar.Tree

namespace Sentence

variable (c : Connective) (v : Variable)

/-- Every chain is read, whatever its length. -/
theorem parse_text_chain (n : Nat) :
    parse (Tree.chain c v n).text = .ok (Tree.chain c v n).sentence := by
  have hn := Tree.nesting_chain_le c v n
  have hmax : 1 ≤ maxNesting := by decide
  exact (parse_text_of_isFormed (Tree.isFormed_chain c v n)).1 (Nat.le_trans hn hmax)

/-- The sentence of a chain has no sets. -/
theorem isSetFree_sentence_chain (n : Nat) : (Tree.chain c v n).sentence.isSetFree = true := by
  induction n with
  | zero => rfl
  | succ n ih =>
    rw [Tree.chain, Tree.sentence, isSetFree, ih]
    rfl

/-- The text of the sentence of a chain needs a level for every connective. -/
theorem textNesting_sentence_chain (n : Nat) : (Tree.chain c v n).sentence.textNesting = n := by
  induction n with
  | zero => rfl
  | succ n ih =>
    have hlevels : (Tree.chain c v n).sentence.operandLevels = min n 1 := by
      cases n with
      | zero => rfl
      | succ n => exact (Nat.min_eq_right (Nat.succ_le_succ (Nat.zero_le n))).symm
    have hlabel : (Tree.label v).sentence.textNesting + (Tree.label v).sentence.operandLevels = 0 :=
      rfl
    rw [Tree.chain, Tree.sentence, textNesting, ih, hlevels, hlabel]
    omega

end Sentence

end Sentential

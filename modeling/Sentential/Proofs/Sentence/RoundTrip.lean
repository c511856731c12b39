import Sentential.Proofs.Sentence.Chain

/-!
# Reading, writing and reading again

What is read has no sets. Its text is read as the same sentence as long as the parentheses that
the text adds do not need more than 256 levels; they can, for a chain of 257 operators.
-/

namespace Sentential

open Grammar

/-- The sentence of a tree has no sets. -/
theorem Grammar.Tree.isSetFree_sentence (t : Tree) : t.sentence.isSetFree = true := by
  induction t with
  | label v => rfl
  | grouped inner ih => exact ih
  | negated target ih => exact ih
  | joined c left right ihl ihr =>
    rw [Tree.sentence, Sentence.isSetFree, ihl, ihr]
    rfl

namespace Sentence

/-- What is read has no sets. -/
theorem isSetFree_of_parse {text : String} {s : Sentence} (h : parse text = .ok s) :
    s.isSetFree = true := by
  obtain ⟨lexing, -, hs⟩ := parse_eq_ok_iff.mp h
  obtain ⟨t, -, -, rfl, -⟩ := Parser.exists_tree_of_sentence hs
  exact t.isSetFree_sentence

/-- The text of what was read is read as the same sentence exactly if it nests at most 256 levels
deep. Otherwise it is refused for its depth. -/
theorem parse_text_of_parse_iff {text : String} {s : Sentence} (h : parse text = .ok s) :
    (parse s.text = .ok s ↔ s.textNesting ≤ 256) ∧
    ((∃ position, parse s.text = .error (.tooDeep 256 position)) ↔ 256 < s.textNesting) := by
  obtain ⟨hok, herror⟩ := parse_text_of_isSetFree (isSetFree_of_parse h)
  by_cases hn : s.textNesting ≤ 256
  · have hs : parse s.text = .ok s := hok hn
    have hlt : ¬256 < s.textNesting := Nat.not_lt.mpr hn
    simp [hs, hn, hlt]
  · have hlt : 256 < s.textNesting := Nat.lt_of_not_le hn
    obtain ⟨position, he⟩ := herror hlt
    have hdepth : ∃ position, parse s.text = .error (.tooDeep 256 position) := ⟨position, he⟩
    refine ⟨⟨fun hs ↦ ?_, fun h ↦ absurd h hn⟩, fun _ ↦ hlt, fun _ ↦ hdepth⟩
    rw [he] at hs
    cases hs

private def chained : Variable := ⟨"a", by decide⟩

private theorem parse_chain_text (n : Nat) :
    parse ("a" ++ String.join (List.replicate n " ^ a")) =
      .ok (Tree.chain .conjunction chained n).sentence := by
  have h := parse_text_chain .conjunction chained n
  rw [Tree.text_chain] at h
  exact h

/-- A chain of 256 operators is read again, and one of 257 operators is not. -/
theorem parse_text_of_parse_chains :
    (parse ("a" ++ String.join (List.replicate 256 " ^ a")) =
        .ok (Tree.chain .conjunction chained 256).sentence ∧
      parse (Tree.chain .conjunction chained 256).sentence.text =
        .ok (Tree.chain .conjunction chained 256).sentence) ∧
    parse ("a" ++ String.join (List.replicate 257 " ^ a")) =
        .ok (Tree.chain .conjunction chained 257).sentence ∧
      ∃ position, parse (Tree.chain .conjunction chained 257).sentence.text =
        .error (.tooDeep 256 position) := by
  have hn := textNesting_sentence_chain .conjunction chained
  have hlong := parse_text_of_parse_iff (parse_chain_text 257)
  have hshort := parse_text_of_parse_iff (parse_chain_text 256)
  rw [hn] at hlong hshort
  exact ⟨⟨parse_chain_text 256, hshort.1.mpr (by decide)⟩, parse_chain_text 257,
    hlong.2.mpr (by decide)⟩

/-- Not everything that is read is read again from its own text: a chain of 257 operators is
not. -/
theorem not_parse_text_of_parse_long_chain :
    ∃ s, parse ("a" ++ String.join (List.replicate 257 " ^ a")) = .ok s ∧
      parse s.text ≠ .ok s := by
  refine ⟨_, parse_chain_text 257, fun h ↦ ?_⟩
  have hfree := isSetFree_sentence_chain .conjunction chained 257
  have hn : 256 < (Tree.chain .conjunction chained 257).sentence.textNesting := by
    rw [textNesting_sentence_chain]
    decide
  obtain ⟨position, he⟩ := (parse_text_of_isSetFree hfree).2 hn
  rw [he] at h
  cases h

end Sentence

end Sentential

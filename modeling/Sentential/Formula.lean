import Sentential.Sentence.Evaluation

/-!
# Formulas

A formula is anything with a truth value under assignments that names the vocabulary it depends
on. A sentence is a formula over its own vocabulary, and can be taken as one over any other; the
vocabulary that a formula names decides which assignments are looked at when it is compared.
-/

namespace Sentential

/-- A truth value under assignments, and the vocabulary it is said to depend on. -/
structure Formula where
  /-- The truth value under an assignment. -/
  evaluate : Assignment → Except UnassignedVariable Bool
  /-- The vocabulary that the formula names as its own. -/
  vocabulary : Vocabulary

namespace Sentence

/-- The sentence as a formula that names the given vocabulary. -/
def formulaOver (s : Sentence) (v : Vocabulary) : Formula := ⟨fun a ↦ s.evaluate a, v⟩

/-- The sentence as a formula over its own vocabulary. -/
def formula (s : Sentence) : Formula := s.formulaOver s.vocabulary

end Sentence

end Sentential

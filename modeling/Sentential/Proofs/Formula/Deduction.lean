import Sentential.Proofs.Formula.Equivalence

/-!
# Entailment and equivalence

The search for a counterexample and the comparison under all assignments go through different
assignments where the sentences have different variables, and look at them in different ways. They
decide an order and its equivalence: a sentence entails another exactly if their conjunction is
equivalent to the first, and a premise can be moved from a set to the conclusion.
-/

namespace Sentential

namespace Formula

open Sentence

/-- Sentences are equivalent exactly if each entails the other. -/
theorem entails_and_entails_iff {left right : Sentence} :
    entails left.formula right.formula = .ok true ∧ entails right.formula left.formula = .ok true ↔
      isEquivalent left.formula right.formula = .ok true := by
  rw [entails_eq_true_iff, entails_eq_true_iff, isEquivalent_eq_true_iff, ← forall_and]
  exact forall_congr' fun valuation ↦ iff_iff_implies_and_implies.symm

/-- A sentence entails another exactly if their conjunction says no more than the first. -/
theorem isEquivalent_conjunction_left (left right : Sentence) :
    isEquivalent (conjunction left right).formula left.formula =
      entails left.formula right.formula := by
  classical
  rw [isEquivalent_eq_ok, entails_eq_ok, Except.ok.injEq, decide_eq_decide]
  exact forall_congr' fun valuation ↦ and_iff_left_iff_imp

/-- A sentence entails another exactly if their disjunction says no less than the second. -/
theorem isEquivalent_disjunction_right (left right : Sentence) :
    isEquivalent (disjunction left right).formula right.formula =
      entails left.formula right.formula := by
  classical
  rw [isEquivalent_eq_ok, entails_eq_ok, Except.ok.injEq, decide_eq_decide]
  exact forall_congr' fun valuation ↦ or_iff_right_iff_imp

/-- Entailment between negations goes the other way. -/
theorem entails_negation (left right : Sentence) :
    entails (negation right).formula (negation left).formula =
      entails left.formula right.formula := by
  classical
  rw [entails_eq_ok, entails_eq_ok, Except.ok.injEq, decide_eq_decide]
  exact forall_congr' fun valuation ↦ Decidable.not_imp_not

/-- A further premise does what an antecedent of the conclusion does, also if it was a premise
before. -/
theorem entails_setOf_cons (premises : List Sentence) (left right : Sentence) :
    entails (setOf (left :: premises)).formula right.formula =
      entails (setOf premises).formula (implication left right).formula := by
  classical
  rw [entails_eq_ok, entails_eq_ok, Except.ok.injEq, decide_eq_decide]
  refine forall_congr' fun valuation ↦ ?_
  rw [holds_setOf, holds_setOf, List.forall_mem_cons, and_imp]
  exact imp.swap

/-- Entailment between sentences is reflexive and transitive, and equivalence is entailment in both
directions. That a sentence entails another is decided as that their conjunction is equivalent to
the first, that their disjunction is equivalent to the second, and that the negation of the second
entails that of the first. A set with a further premise entails a sentence exactly if the set
without it entails the implication. -/
theorem entails_isEquivalent_laws :
    (∀ s : Sentence, entails s.formula s.formula = .ok true) ∧
    (∀ s t u : Sentence, entails s.formula t.formula = .ok true →
      entails t.formula u.formula = .ok true → entails s.formula u.formula = .ok true) ∧
    (∀ left right : Sentence,
      entails left.formula right.formula = .ok true ∧
          entails right.formula left.formula = .ok true ↔
        isEquivalent left.formula right.formula = .ok true) ∧
    (∀ left right : Sentence,
      entails left.formula right.formula =
        isEquivalent (conjunction left right).formula left.formula ∧
      entails left.formula right.formula =
        isEquivalent (disjunction left right).formula right.formula ∧
      entails left.formula right.formula =
        entails (negation right).formula (negation left).formula) ∧
    ∀ (premises : List Sentence) (left right : Sentence),
      entails (setOf (left :: premises)).formula right.formula =
        entails (setOf premises).formula (implication left right).formula := by
  refine ⟨fun s ↦ ?_, fun s t u hst htu ↦ ?_, fun left right ↦ entails_and_entails_iff,
    fun left right ↦ ⟨?_, ?_, ?_⟩, entails_setOf_cons⟩
  · exact entails_eq_true_iff.mpr fun valuation hs ↦ hs
  · rw [entails_eq_true_iff] at hst htu ⊢
    intro valuation hs
    exact htu valuation (hst valuation hs)
  · rw [isEquivalent_conjunction_left]
  · rw [isEquivalent_disjunction_right]
  · rw [entails_negation]

private def shared : Sentence := .atom ⟨"k", by decide⟩

private def stronger : Sentence := .conjunction shared (.atom ⟨"l", by decide⟩)

private def weaker : Sentence := .disjunction shared (.atom ⟨"m", by decide⟩)

/-- Two entailments over different variables follow each other, and a premise that is listed twice
can still be moved to the conclusion. The last sentence does not entail the first, and the
comparisons that decide the same say no as well. -/
theorem entails_isEquivalent_laws_chained :
    entails stronger.formula shared.formula = .ok true ∧
    entails shared.formula weaker.formula = .ok true ∧
    entails stronger.formula weaker.formula = .ok true ∧
    entails (setOf [stronger]).formula (implication stronger weaker).formula = .ok true ∧
    entails weaker.formula stronger.formula = .ok false ∧
    isEquivalent (conjunction weaker stronger).formula weaker.formula = .ok false ∧
    isEquivalent (disjunction weaker stronger).formula stronger.formula = .ok false ∧
    entails (negation stronger).formula (negation weaker).formula = .ok false := by
  obtain ⟨-, htrans, -, hsame, hdeduction⟩ := entails_isEquivalent_laws
  have hfirst : entails stronger.formula shared.formula = .ok true := rfl
  have hsecond : entails shared.formula weaker.formula = .ok true := rfl
  have hset : entails (setOf [stronger, stronger]).formula weaker.formula = .ok true := rfl
  have hback : entails weaker.formula stronger.formula = .ok false := rfl
  obtain ⟨hconjunction, hdisjunction, hnegation⟩ := hsame weaker stronger
  exact ⟨hfirst, hsecond, htrans _ _ _ hfirst hsecond, (hdeduction _ _ _).symm.trans hset, hback,
    hconjunction.symm.trans hback, hdisjunction.symm.trans hback, hnegation.symm.trans hback⟩

end Formula

end Sentential

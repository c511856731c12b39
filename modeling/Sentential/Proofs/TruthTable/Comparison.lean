import Mathlib.Data.List.Forall2
import Sentential.Proofs.Formula.Widening
import Sentential.Proofs.TruthTable.Columns

/-!
# Comparing columns

A truth table over a vocabulary with all variables of two sentences shows whether they are
equivalent and whether one entails the other, however many more rows it has than the comparison of
the sentences looks at: it does by their columns.
-/

namespace Sentential

namespace TruthTable

open Sentence Formula

/-- A table of two sentences over any vocabulary with all their variables has its columns. The last
two are the same exactly if the sentences are equivalent, and the first of them is never true where
the second is false exactly if the first sentence entails the second. -/
theorem columns_show_verdicts {left right : Sentence} {v : Vocabulary}
    (h : left.vocabulary ∪ right.vocabulary ⊆ v) :
    ∃ earlier leftValues rightValues,
      (⟨v, [left, right]⟩ : TruthTable).columns =
        .ok (earlier ++ [⟨left, leftValues⟩, ⟨right, rightValues⟩]) ∧
      (leftValues = rightValues ↔ isEquivalent left.formula right.formula = .ok true) ∧
      (List.Forall₂ (fun x y ↦ x = true → y = true) leftValues rightValues ↔
        entails left.formula right.formula = .ok true) := by
  classical
  obtain ⟨hl, hr⟩ := SortedSet.union_subset_iff.mp h
  have hcolumns := columns_of_inside (t := ⟨v, [left, right]⟩) fun s hs ↦ by
    rcases List.mem_pair.mp hs with rfl | rfl
    · exact hl
    · exact hr
  rw [headings, List.map_append] at hcolumns
  refine ⟨_, _, _, hcolumns, ?_, ?_⟩
  · rw [List.map_inj_left, isEquivalent_eq_true_iff, ← forall_assignments_iff h Iff]
    simp only [decide_eq_decide]
  · rw [List.forall₂_map_left_iff, List.forall₂_map_right_iff, List.forall₂_same,
      entails_eq_true_iff, ← forall_assignments_iff h fun p q ↦ (p → q)]
    simp only [decide_eq_true_iff]

private def part : Sentence := .atom ⟨"x", by decide⟩

private def whole : Sentence := .conjunction part (.atom ⟨"z", by decide⟩)

private def withSpare : Vocabulary :=
  SortedSet.ofList [⟨"x", by decide⟩, ⟨"y", by decide⟩, ⟨"z", by decide⟩]

/-- With a variable of neither sentence in the table, its columns still show that the one entails
the other, but is not equivalent to it. -/
theorem columns_show_verdicts_with_spare :
    whole.vocabulary ∪ part.vocabulary ⊆ withSpare ∧
    ∃ earlier leftValues rightValues,
      (⟨withSpare, [whole, part]⟩ : TruthTable).columns =
        .ok (earlier ++ [⟨whole, leftValues⟩, ⟨part, rightValues⟩]) ∧
      leftValues ≠ rightValues ∧
      List.Forall₂ (fun x y ↦ x = true → y = true) leftValues rightValues := by
  have hinside : whole.vocabulary ∪ part.vocabulary ⊆ withSpare := by decide
  have hdiffer : isEquivalent whole.formula part.formula = .ok false := rfl
  have hentails : entails whole.formula part.formula = .ok true := rfl
  obtain ⟨earlier, leftValues, rightValues, hcolumns, hsame, hbelow⟩ :=
    columns_show_verdicts hinside
  refine ⟨hinside, earlier, leftValues, rightValues, hcolumns, fun he ↦ ?_, hbelow.mpr hentails⟩
  rw [hsame.mp he] at hdiffer
  cases hdiffer

end TruthTable

end Sentential

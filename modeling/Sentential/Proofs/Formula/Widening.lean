import Sentential.Proofs.Assignment.Restriction
import Sentential.Proofs.Formula.Equivalence

/-!
# Comparing over more variables

Sentences may be compared as formulas over vocabularies that have variables of neither. Evaluation
does not look at these, so every assignment over the variables of the sentences counts once for each
way to give values to the others: the numbers are multiplied and the verdicts stay the same.
-/

namespace Sentential

/-- Truth under a restriction to variables that include those of the sentence is truth under the
assignment. -/
theorem Sentence.holds_restrict {s : Sentence} {w : Vocabulary} (h : s.vocabulary ⊆ w)
    (a : Assignment) : s.Holds (a.restrict w).IsTrue ↔ s.Holds a.IsTrue :=
  holds_congr fun v hv ↦ Assignment.isTrue_restrict (h v (mem_vocabulary.mpr hv))

namespace Formula

open Sentence

/-- Whether sentences agree under an assignment depends on their own variables only. -/
theorem agreeUnder_restrict (left right : Sentence) (a : Assignment) :
    AgreeUnder left right (a.restrict (left.vocabulary ∪ right.vocabulary)) ↔
      AgreeUnder left right a := by
  rw [AgreeUnder, AgreeUnder, holds_restrict SortedSet.subset_union_left,
    holds_restrict SortedSet.subset_union_right]

/-- Comparing sentences as formulas over vocabularies that together have all their variables gives
the verdicts that it gives over their own variables. The assignments under which they agree are the
extensions of those over their own variables under which they do, and so are the others: of either
there are `2 ^ k` times as many, where `k` is the number of the additional variables. -/
theorem comparison_over_more_variables {left right : Sentence} {vl vr : Vocabulary}
    (h : left.vocabulary ∪ right.vocabulary ⊆ vl ∪ vr) :
    isEquivalent (left.formulaOver vl) (right.formulaOver vr) =
      isEquivalent left.formula right.formula ∧
    entails (left.formulaOver vl) (right.formulaOver vr) =
      entails left.formula right.formula ∧
    ∃ wide narrow, agreement (left.formulaOver vl) (right.formulaOver vr) = .ok wide ∧
      agreement left.formula right.formula = .ok narrow ∧
      Vocabulary.AreExtensions (vl ∪ vr) (left.vocabulary ∪ right.vocabulary)
        wide.agreeing narrow.agreeing ∧
      Vocabulary.AreExtensions (vl ∪ vr) (left.vocabulary ∪ right.vocabulary)
        wide.disagreeing narrow.disagreeing := by
  classical
  refine ⟨?_, ?_, _, _, agreement_eq_ok (covers_of_mem_assignments h),
    agreement_eq_ok (covers_of_mem_assignments fun _ hv ↦ hv), ?_, ?_⟩
  · rw [isEquivalent_eq_ok_of_subset h, isEquivalent_eq_ok]
  · rw [entails_eq_ok_of_subset h, entails_eq_ok]
  · exact Vocabulary.areExtensions_filter h fun a ↦ by rw [agreeUnder_restrict]
  · exact Vocabulary.areExtensions_filter h fun a ↦ by rw [agreeUnder_restrict]

private def inner : Sentence := .atom ⟨"f", by decide⟩

private def outer : Sentence := .conjunction inner (.atom ⟨"h", by decide⟩)

private def aroundInner : Vocabulary :=
  SortedSet.ofList [⟨"e", by decide⟩, ⟨"f", by decide⟩, ⟨"g", by decide⟩]

private def onlyOuter : Vocabulary := SortedSet.ofList [⟨"h", by decide⟩]

/-- Two sentences of two variables agree under three of four assignments, and with two more
variables, one before and one between theirs, under twelve of sixteen. -/
theorem comparison_over_interleaved_variables :
    inner.vocabulary ∪ outer.vocabulary ⊆ aroundInner ∪ onlyOuter ∧
    isEquivalent (inner.formulaOver aroundInner) (outer.formulaOver onlyOuter) = .ok false ∧
    entails (outer.formulaOver onlyOuter) (inner.formulaOver aroundInner) = .ok true ∧
    ∃ wide, agreement (inner.formulaOver aroundInner) (outer.formulaOver onlyOuter) = .ok wide ∧
      wide.agreeing.length = 12 ∧ wide.disagreeing.length = 4 := by
  have hinside : inner.vocabulary ∪ outer.vocabulary ⊆ aroundInner ∪ onlyOuter := by decide
  have hinside' : outer.vocabulary ∪ inner.vocabulary ⊆ onlyOuter ∪ aroundInner := by decide
  have hcount : (agreement inner.formula outer.formula).map
      (fun split ↦ (split.agreeing.length, split.disagreeing.length)) = .ok (3, 1) := rfl
  have houtside :
      (aroundInner ∪ onlyOuter).countOutside (inner.vocabulary ∪ outer.vocabulary) = 2 := rfl
  obtain ⟨hequivalent, -, wide, narrow, hwide, hnarrow, hagree, hdisagree⟩ :=
    comparison_over_more_variables hinside
  obtain ⟨-, hentails, -⟩ := comparison_over_more_variables hinside'
  rw [hnarrow] at hcount
  obtain ⟨hthree, hone⟩ := Prod.mk.inj (Except.ok.inj hcount)
  refine ⟨hinside, hequivalent.trans rfl, hentails.trans rfl, wide, hwide, ?_, ?_⟩
  · rw [hagree.length_eq, houtside, hthree]
    rfl
  · rw [hdisagree.length_eq, houtside, hone]
    rfl

end Formula

end Sentential

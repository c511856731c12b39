import Sentential.Formula.Entailment
import Sentential.Proofs.Sentence.Semantics
import Sentential.Proofs.Traversal

/-!
# Entailment between sentences

For sentences the search through the assignments over their joint vocabulary never fails, and it
speaks for all valuations: each of them agrees with one of the assignments on the variables that
occur.
-/

namespace Sentential

namespace Formula

open Sentence

variable {premise conclusion : Sentence}

/-- The assignments over a vocabulary with the variables of both sentences cover both. -/
theorem covers_of_mem_assignments {left right : Sentence} {u : Vocabulary}
    (h : left.vocabulary ∪ right.vocabulary ⊆ u) :
    ∀ a ∈ u.assignments, a.Covers left ∧ a.Covers right := by
  obtain ⟨hl, hr⟩ := SortedSet.union_subset_iff.mp h
  intro a ha
  rw [← Vocabulary.mem_assignments.mp ha] at hl hr
  exact ⟨Assignment.covers_of_domain hl, Assignment.covers_of_domain hr⟩

/-- The joint assignments of sentences give values to the variables of both. -/
theorem covers_of_mem_jointAssignments {left right : Sentence} {a : Assignment}
    (h : a ∈ jointAssignments left.formula right.formula) : a.Covers left ∧ a.Covers right :=
  covers_of_mem_assignments (fun _ hv ↦ hv) a h

/-- Every valuation agrees with some assignment over such a vocabulary on the variables of both
sentences. -/
theorem exists_assignment_holds_iff {left right : Sentence} {u : Vocabulary}
    (h : left.vocabulary ∪ right.vocabulary ⊆ u) (valuation : Variable → Prop) :
    ∃ a ∈ u.assignments, (left.Holds a.IsTrue ↔ left.Holds valuation) ∧
      (right.Holds a.IsTrue ↔ right.Holds valuation) := by
  obtain ⟨hl, hr⟩ := SortedSet.union_subset_iff.mp h
  obtain ⟨a, ha, hv⟩ := u.exists_isTrue_iff valuation
  refine ⟨a, ha, holds_congr fun v hm ↦ ?_, holds_congr fun v hm ↦ ?_⟩
  · exact hv v (hl v (mem_vocabulary.mpr hm))
  · exact hv v (hr v (mem_vocabulary.mpr hm))

/-- Every valuation agrees with some joint assignment on the variables of both sentences. -/
theorem exists_jointAssignment (left right : Sentence) (valuation : Variable → Prop) :
    ∃ a ∈ jointAssignments left.formula right.formula,
      (left.Holds a.IsTrue ↔ left.Holds valuation) ∧
      (right.Holds a.IsTrue ↔ right.Holds valuation) :=
  exists_assignment_holds_iff (fun _ hv ↦ hv) valuation

/-- What relates the truth values of two sentences under the assignments over a vocabulary with
their variables relates them under all valuations. -/
theorem forall_assignments_iff {left right : Sentence} {u : Vocabulary}
    (h : left.vocabulary ∪ right.vocabulary ⊆ u) (related : Prop → Prop → Prop) :
    (∀ a ∈ u.assignments, related (left.Holds a.IsTrue) (right.Holds a.IsTrue)) ↔
      ∀ valuation, related (left.Holds valuation) (right.Holds valuation) := by
  constructor
  · intro hall valuation
    obtain ⟨a, ha, hl, hr⟩ := exists_assignment_holds_iff h valuation
    rw [← propext hl, ← propext hr]
    exact hall a ha
  · intro hall a _
    exact hall a.IsTrue

section Vocabularies

variable {vp vc : Vocabulary}

open Classical in
/-- An assignment refutes the entailment when the premise holds under it and the conclusion does
not. -/
theorem refutedUnder_eq_ok {a : Assignment} (hp : a.Covers premise) (hc : a.Covers conclusion) :
    refutedUnder (premise.formulaOver vp) (conclusion.formulaOver vc) a =
      .ok (decide (premise.Holds a.IsTrue ∧ ¬conclusion.Holds a.IsTrue)) := by
  have hpe : (premise.formulaOver vp).evaluate a = _ := evaluate_of_covers hp
  have hce : (conclusion.formulaOver vc).evaluate a = _ := evaluate_of_covers hc
  rw [refutedUnder, hpe, hce]
  by_cases h : premise.Holds a.IsTrue <;> by_cases h' : conclusion.Holds a.IsTrue <;>
    simp [h, h', bind, Except.bind, pure, Except.pure]

open Classical in
/-- Where all joint assignments cover both sentences, the search for a counterexample does not fail,
and finds the first one. -/
theorem counterexample?_eq_ok
    (h : ∀ a ∈ (vp ∪ vc).assignments, a.Covers premise ∧ a.Covers conclusion) :
    counterexample? (premise.formulaOver vp) (conclusion.formulaOver vc) =
      .ok ((vp ∪ vc).assignments.find? fun a ↦
        decide (premise.Holds a.IsTrue ∧ ¬conclusion.Holds a.IsTrue)) := by
  apply findM?_eq_ok_find?
  intro a ha
  exact refutedUnder_eq_ok (h a ha).1 (h a ha).2

open Classical in
/-- Over vocabularies with the variables of both sentences, entailment is decided as it is under all
valuations. -/
theorem entails_eq_ok_of_subset (h : premise.vocabulary ∪ conclusion.vocabulary ⊆ vp ∪ vc) :
    entails (premise.formulaOver vp) (conclusion.formulaOver vc) =
      .ok (decide (∀ valuation, premise.Holds valuation → conclusion.Holds valuation)) := by
  rw [entails_eq, counterexample?_eq_ok (covers_of_mem_assignments h)]
  apply congrArg Except.ok
  rw [Bool.eq_iff_iff, Option.isNone_iff_eq_none, List.find?_eq_none, decide_eq_true_iff,
    ← forall_assignments_iff h fun p q ↦ (p → q)]
  simp only [decide_eq_true_iff, not_and, Classical.not_not]

end Vocabularies

open Classical in
/-- Entailment between sentences is decided as it is under all valuations. -/
theorem entails_eq_ok (premise conclusion : Sentence) :
    entails premise.formula conclusion.formula =
      .ok (decide (∀ valuation, premise.Holds valuation → conclusion.Holds valuation)) :=
  entails_eq_ok_of_subset fun _ hv ↦ hv

/-- A sentence entails another exactly when that holds wherever the first does. -/
theorem entails_eq_true_iff :
    entails premise.formula conclusion.formula = .ok true ↔
      ∀ valuation, premise.Holds valuation → conclusion.Holds valuation := by
  classical
  rw [entails_eq_ok, Except.ok.injEq, decide_eq_true_iff]

end Formula

end Sentential

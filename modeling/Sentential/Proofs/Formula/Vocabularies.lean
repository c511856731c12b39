import Sentential.Proofs.Formula.Agreement
import Sentential.Proofs.Sentence.Definedness

/-!
# Formulas over any vocabulary

Sentences can be compared as formulas over vocabularies that do not have all their variables. What
then fails does not depend on the assignments, only on whether the sentence is evaluated at all: the
comparison evaluates both sentences under the first joint assignment, while the search for a
counterexample evaluates the conclusion only where the premise is true.
-/

namespace Sentential

namespace Formula

open Sentence

variable {left right : Sentence} {vl vr : Vocabulary}

/-- Comparing formulas fails with the leftmost variable outside of the vocabularies, of the left
sentence if it has any. -/
theorem agreement_of_leftmostOutside? {v : Variable}
    (h : (left.leftmostOutside? (vl ∪ vr)).or (right.leftmostOutside? (vl ∪ vr)) = some v) :
    agreement (left.formulaOver vl) (right.formulaOver vr) = .error ⟨v⟩ := by
  -- The first joint assignment already fails, and all others would with the same variable.
  obtain ⟨a, hhead, hdomain⟩ := (vl ∪ vr).exists_head?_assignments
  have hagree : agreeUnder (left.formulaOver vl) (right.formulaOver vr) a = .error ⟨v⟩ := by
    rw [← hdomain, Option.or_eq_some_iff] at h
    rcases h with hl | ⟨hl, hr⟩
    · have hle : (left.formulaOver vl).evaluate a = _ := evaluate_of_leftmostOutside? hl
      rw [agreeUnder, hle]
      rfl
    · have hle : (left.formulaOver vl).evaluate a = _ :=
        evaluate_of_covers (covers_iff_leftmostOutside?.mpr hl)
      have hre : (right.formulaOver vr).evaluate a = _ := evaluate_of_leftmostOutside? hr
      rw [agreeUnder, hle, hre]
      rfl
  have hfail : ((jointAssignments (left.formulaOver vl) (right.formulaOver vr)).mapM fun a ↦ do
      return (a, ← agreeUnder (left.formulaOver vl) (right.formulaOver vr) a)) = .error ⟨v⟩ := by
    apply mapM_eq_error_of_head? hhead
    rw [hagree]
    rfl
  rw [agreement_eq, agreementAmong, hfail]
  rfl

/-- Where the vocabularies have the variables of both sentences, all joint assignments cover
them. -/
theorem covers_of_leftmostOutside? (hl : left.leftmostOutside? (vl ∪ vr) = none)
    (hr : right.leftmostOutside? (vl ∪ vr) = none) :
    ∀ a ∈ (vl ∪ vr).assignments, a.Covers left ∧ a.Covers right :=
  covers_of_mem_assignments (SortedSet.union_subset_iff.mpr
    ⟨leftmostOutside?_eq_none_iff.mp hl, leftmostOutside?_eq_none_iff.mp hr⟩)

/-- Comparing formulas fails exactly if there is such a variable. -/
theorem agreement_eq_error_iff {v : Variable} :
    agreement (left.formulaOver vl) (right.formulaOver vr) = .error ⟨v⟩ ↔
      (left.leftmostOutside? (vl ∪ vr)).or (right.leftmostOutside? (vl ∪ vr)) = some v := by
  refine ⟨fun h ↦ ?_, agreement_of_leftmostOutside?⟩
  cases hfirst : (left.leftmostOutside? (vl ∪ vr)).or (right.leftmostOutside? (vl ∪ vr)) with
  | some w =>
    rw [agreement_of_leftmostOutside? hfirst] at h
    cases h
    rfl
  | none =>
    obtain ⟨hl, hr⟩ := Option.or_eq_none_iff.mp hfirst
    rw [agreement_eq_ok (covers_of_leftmostOutside? hl hr)] at h
    cases h

/-- Comparing formulas fails exactly if one of the sentences has a variable outside of the
vocabularies. -/
theorem agreement_fails_iff :
    (∃ e, agreement (left.formulaOver vl) (right.formulaOver vr) = .error e) ↔
      ∃ v ∈ left.vocabulary ∪ right.vocabulary, v ∉ vl ∪ vr := by
  have hfirst : (∃ e, agreement (left.formulaOver vl) (right.formulaOver vr) = .error e) ↔
      (left.leftmostOutside? (vl ∪ vr)).or (right.leftmostOutside? (vl ∪ vr)) ≠ none := by
    rw [Option.ne_none_iff_exists']
    constructor
    · rintro ⟨⟨v⟩, h⟩
      exact ⟨v, agreement_eq_error_iff.mp h⟩
    · rintro ⟨v, h⟩
      exact ⟨⟨v⟩, agreement_eq_error_iff.mpr h⟩
  rw [hfirst, ne_eq, Option.or_eq_none_iff, leftmostOutside?_eq_none_iff,
    leftmostOutside?_eq_none_iff, ← forall_and]
  simp only [← or_imp, ← SortedSet.mem_union, Classical.not_forall, exists_prop]

/-- The search for a counterexample fails at once with the leftmost variable of the premise that is
outside of the vocabularies. -/
theorem entails_of_premise_outside {v : Variable}
    (h : left.leftmostOutside? (vl ∪ vr) = some v) :
    entails (left.formulaOver vl) (right.formulaOver vr) = .error ⟨v⟩ := by
  obtain ⟨a, hhead, hdomain⟩ := (vl ∪ vr).exists_head?_assignments
  rw [← hdomain] at h
  have hle : (left.formulaOver vl).evaluate a = _ := evaluate_of_leftmostOutside? h
  have hrefuted : refutedUnder (left.formulaOver vl) (right.formulaOver vr) a = .error ⟨v⟩ := by
    rw [refutedUnder, hle]
    rfl
  have hsearch : counterexample? (left.formulaOver vl) (right.formulaOver vr) = .error ⟨v⟩ :=
    findM?_eq_error_of_head? hhead hrefuted
  rw [entails_eq, hsearch]
  rfl

open Classical in
/-- Over a vocabulary with all its variables a sentence has a value. -/
theorem evaluate_of_domain {s : Sentence} {v : Vocabulary} {a : Assignment}
    (h : s.leftmostOutside? v = none) (ha : a.domain = v) :
    s.evaluate a = .ok (decide (s.Holds a.IsTrue)) := by
  rw [← ha] at h
  exact evaluate_of_covers (covers_iff_leftmostOutside?.mpr h)

open Classical in
/-- If the premise has a value everywhere, a variable of the conclusion that is outside of the
vocabularies makes the search fail, unless the premise is false under all assignments. -/
theorem entails_of_conclusion_outside {v : Variable}
    (hl : left.leftmostOutside? (vl ∪ vr) = none)
    (hr : right.leftmostOutside? (vl ∪ vr) = some v) :
    entails (left.formulaOver vl) (right.formulaOver vr) =
      if ∀ a : Assignment, a.domain = vl ∪ vr → left.evaluate a = .ok false then .ok true
      else .error ⟨v⟩ := by
  -- The conclusion fails in the same way wherever it is evaluated, that is where the premise holds.
  have hrefuted : ∀ a ∈ (vl ∪ vr).assignments,
      refutedUnder (left.formulaOver vl) (right.formulaOver vr) a =
        if decide (left.Holds a.IsTrue) then .error ⟨v⟩ else .ok false := by
    intro a ha
    have hdomain := Vocabulary.mem_assignments.mp ha
    have hle : (left.formulaOver vl).evaluate a = _ := evaluate_of_domain hl hdomain
    rw [← hdomain] at hr
    have hre : (right.formulaOver vr).evaluate a = _ := evaluate_of_leftmostOutside? hr
    rw [refutedUnder, hle, hre]
    cases decide (left.Holds a.IsTrue) <;> rfl
  have hsearch : counterexample? (left.formulaOver vl) (right.formulaOver vr) =
      if (vl ∪ vr).assignments.any fun a ↦ decide (left.Holds a.IsTrue) then .error ⟨v⟩
      else .ok none := findM?_eq_of_same_error hrefuted
  have hany : ((vl ∪ vr).assignments.any fun a ↦ decide (left.Holds a.IsTrue)) = false ↔
      ∀ a : Assignment, a.domain = vl ∪ vr → left.evaluate a = .ok false := by
    rw [List.any_eq_false]
    simp only [Bool.not_eq_true, Vocabulary.mem_assignments]
    refine forall₂_congr fun a ha ↦ ?_
    rw [evaluate_of_domain hl ha, Except.ok.injEq]
  rw [entails_eq, hsearch]
  simp only [← hany]
  cases (vl ∪ vr).assignments.any fun a ↦ decide (left.Holds a.IsTrue) <;> rfl

open Classical in
/-- If both sentences have values everywhere, the search does not fail. -/
theorem entails_of_inside (hl : left.leftmostOutside? (vl ∪ vr) = none)
    (hr : right.leftmostOutside? (vl ∪ vr) = none) :
    entails (left.formulaOver vl) (right.formulaOver vr) =
      .ok (decide (∀ a : Assignment, a.domain = vl ∪ vr →
        left.evaluate a = .ok true → right.evaluate a = .ok true)) := by
  rw [entails_eq, counterexample?_eq_ok (covers_of_leftmostOutside? hl hr)]
  apply congrArg Except.ok
  rw [Bool.eq_iff_iff, Option.isNone_iff_eq_none, List.find?_eq_none, decide_eq_true_iff]
  simp only [Vocabulary.mem_assignments, decide_eq_true_iff]
  refine forall₂_congr fun a ha ↦ ?_
  rw [evaluate_of_domain hl ha, evaluate_of_domain hr ha, Except.ok.injEq, Except.ok.injEq,
    decide_eq_true_iff, decide_eq_true_iff, not_and, Classical.not_not]

open Classical in
/-- Comparing sentences as formulas over any vocabularies fails exactly if one of them has a
variable outside of these, and the error names the leftmost such variable, of the left sentence if
it has any. The search for a counterexample fails with the leftmost such variable of the premise; if
the premise has none, but the conclusion does, it fails with that of the conclusion, unless the
premise is false under all assignments, where the answer is yes; else it answers as evaluation
does. -/
theorem failure_over_vocabularies (left right : Sentence) (vl vr : Vocabulary) :
    ((∃ e, agreement (left.formulaOver vl) (right.formulaOver vr) = .error e) ↔
      ∃ v ∈ left.vocabulary ∪ right.vocabulary, v ∉ vl ∪ vr) ∧
    (∀ v, agreement (left.formulaOver vl) (right.formulaOver vr) = .error ⟨v⟩ ↔
      (left.leftmostOutside? (vl ∪ vr)).or (right.leftmostOutside? (vl ∪ vr)) = some v) ∧
    entails (left.formulaOver vl) (right.formulaOver vr) =
      match left.leftmostOutside? (vl ∪ vr) with
      | some v => .error ⟨v⟩
      | none =>
        if ∀ a : Assignment, a.domain = vl ∪ vr → left.evaluate a = .ok false then .ok true
        else
          match right.leftmostOutside? (vl ∪ vr) with
          | some v => .error ⟨v⟩
          | none => .ok (decide (∀ a : Assignment, a.domain = vl ∪ vr →
              left.evaluate a = .ok true → right.evaluate a = .ok true)) := by
  refine ⟨agreement_fails_iff, fun v ↦ agreement_eq_error_iff, ?_⟩
  cases hl : left.leftmostOutside? (vl ∪ vr) with
  | some v => exact entails_of_premise_outside hl
  | none =>
    cases hr : right.leftmostOutside? (vl ∪ vr) with
    | some v => exact entails_of_conclusion_outside hl hr
    | none =>
      change _ = if _ then _ else Except.ok _
      rw [entails_of_inside hl hr]
      split
      · next hfalse =>
        have hvacuous : ∀ a : Assignment, a.domain = vl ∪ vr →
            left.evaluate a = .ok true → right.evaluate a = .ok true := by
          intro a ha htrue
          rw [hfalse a ha] at htrue
          cases htrue
        rw [decide_eq_true hvacuous]
      · rfl

end Formula

end Sentential

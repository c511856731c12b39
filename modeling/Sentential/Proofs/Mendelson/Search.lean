import Sentential.Mendelson.Problem

/-!
# What the search finds

The search gives nothing, or the elimination of an implication among the premises whose
consequent is the conclusion. Of several such implications it is the one with the least
antecedent.
-/

namespace Sentential

/-- Implications of the same consequent are ordered by their antecedents. -/
theorem Sentence.compare_implication (antecedent other consequent : Sentence) :
    compare (implication antecedent consequent) (implication other consequent) =
      compare antecedent other := by
  have hself : compareStructure consequent consequent = .eq := compareStructure_eq_iff.mpr rfl
  have hconnective : compare Connective.implication .implication = .eq :=
    Std.ReflCmp.compare_self
  change compareStructure _ _ = compareStructure _ _
  rw [compareStructure, hself, hconnective, Ordering.then_eq, Ordering.eq_then]

namespace Mendelson

/-- An elimination derives the consequent of an implication. -/
theorem Rule.derived?_implicationElimination {s consequent : Sentence} :
    (implicationElimination s).derived? = some consequent ↔
      ∃ antecedent, s = .implication antecedent consequent := by
  constructor
  · intro h
    unfold derived? at h
    split at h
    · next antecedent consequent' he =>
      injection he with he
      injection h with h
      exact ⟨antecedent, by rw [he, h]⟩
    · cases h
    · next he => cases he
    · next he => cases he
    · next he => cases he
  · rintro ⟨antecedent, rfl⟩
    rfl

namespace Problem

variable {p : Problem}

/-- To look at the implications only changes nothing, for nothing is derived from other
sentences. -/
theorem step?_eq (p : Problem) :
    p.step? = (p.premises.toList.map Rule.implicationElimination).find? fun rule ↦
      decide (rule.derived? = some p.conclusion) := by
  rw [step?, List.find?_map, List.find?_map, List.find?_filter]
  congr 2
  funext s
  rw [Bool.eq_iff_iff, decide_eq_true_iff, and_iff_right_iff_imp, Function.comp_apply,
    decide_eq_true_iff, Rule.derived?_implicationElimination]
  rintro ⟨antecedent, rfl⟩
  rfl

/-- The step is the elimination of the first implication that gives the conclusion. -/
theorem step?_eq_some_iff {rule : Rule} :
    p.step? = some rule ↔
      ∃ antecedent, rule = .implicationElimination (.implication antecedent p.conclusion) ∧
        .implication antecedent p.conclusion ∈ p.premises ∧
        ∀ other, .implication other p.conclusion ∈ p.premises →
          (compare antecedent other).isLE := by
  have hgives (s : Sentence) :
      ((fun rule ↦ decide (rule.derived? = some p.conclusion)) ∘ Rule.implicationElimination) s =
        true ↔ ∃ antecedent, s = .implication antecedent p.conclusion := by
    rw [Function.comp_apply, decide_eq_true_iff, Rule.derived?_implicationElimination]
  rw [step?_eq, List.find?_map, Option.map_eq_some_iff]
  simp only [Ascending.find?_eq_some_iff p.premises.ascending, hgives]
  constructor
  · rintro ⟨_, ⟨hm, ⟨antecedent, rfl⟩, hle⟩, rfl⟩
    refine ⟨antecedent, rfl, hm, fun other ho ↦ ?_⟩
    rw [← Sentence.compare_implication _ _ p.conclusion]
    exact hle _ ho ⟨other, rfl⟩
  · rintro ⟨antecedent, rfl, hm, hle⟩
    refine ⟨.implication antecedent p.conclusion, ⟨hm, ⟨antecedent, rfl⟩, ?_⟩, rfl⟩
    rintro _ ho ⟨other, rfl⟩
    rw [Sentence.compare_implication]
    exact hle other ho

/-- There is no step exactly if no premise is an implication of the conclusion. -/
theorem step?_eq_none_iff :
    p.step? = none ↔ ∀ antecedent, .implication antecedent p.conclusion ∉ p.premises := by
  rw [step?_eq, List.find?_eq_none]
  simp only [List.forall_mem_map, decide_eq_true_iff, Rule.derived?_implicationElimination,
    SortedSet.mem_toList]
  constructor
  · intro h antecedent hm
    exact h _ hm ⟨antecedent, rfl⟩
  · rintro h _ hm ⟨antecedent, rfl⟩
    exact h antecedent hm

/-- A problem has no error when its conclusion and premises are of the system. -/
theorem error?_eq_none_iff :
    p.error? = none ↔
      p.conclusion.isMendelson = true ∧ ∀ s ∈ p.premises, s.isMendelson = true := by
  rw [error?]
  split
  · next hc =>
    rw [Option.map_eq_none_iff, List.find?_eq_none]
    simp [hc]
  · next hc => simp [hc]

/-- Where there is no error, what is found is no step if the conclusion is given, and otherwise
the step to it, if there is one. -/
theorem prove_eq_ok_iff {rules : List Rule} :
    p.prove = .ok rules ↔
      p.error? = none ∧
        (p.conclusion ∈ p.premises ∧ rules = [] ∨
          p.conclusion ∉ p.premises ∧ rules = p.step?.toList) := by
  rw [prove_eq]
  cases p.error? with
  | some e => simp
  | none =>
    by_cases hg : p.conclusion ∈ p.premises
    · have hgiven : p.isGiven = true := SortedSet.contains_iff.mpr hg
      simp [hgiven, hg, eq_comm]
    · have hgiven : p.isGiven = false := by
        rw [← Bool.not_eq_true, isGiven, SortedSet.contains_iff]
        exact hg
      simp [hgiven, hg, eq_comm]

/-- A proof that is not empty is the step to the conclusion. -/
theorem exists_step_of_prove {rules : List Rule} (h : p.prove = .ok rules) (hne : rules ≠ []) :
    ∃ rule, rules = [rule] ∧ p.step? = some rule := by
  obtain ⟨-, ⟨-, hnil⟩ | ⟨-, hrules⟩⟩ := prove_eq_ok_iff.mp h
  · exact absurd hnil hne
  · cases hs : p.step? with
    | none =>
      rw [hs] at hrules
      exact absurd hrules hne
    | some rule =>
      rw [hs] at hrules
      exact ⟨rule, hrules, rfl⟩

end Problem

end Mendelson

end Sentential

import Sentential.Proofs.Formula.Entailment
import Sentential.Trace

/-!
# The least counterexample

Where a sentence does not entail another, the search ends with the least assignment over their
variables that makes the first true and the second false, and tells it. Where it does, there is no
such assignment, and none is told.
-/

namespace Sentential

namespace Formula

open Sentence

/-- An assignment to just the variables of both sentences makes the premise true and the conclusion
false. -/
structure Refutes (premise conclusion : Sentence) (a : Assignment) : Prop where
  domain_eq : a.domain = premise.vocabulary ∪ conclusion.vocabulary
  premise_eq : premise.evaluate a = .ok true
  conclusion_eq : conclusion.evaluate a = .ok false

variable {premise conclusion : Sentence}

/-- Under the joint assignments the premise holds and the conclusion does not exactly if they have
these values. -/
theorem refutes_iff {a : Assignment} :
    Refutes premise conclusion a ↔ a ∈ jointAssignments premise.formula conclusion.formula ∧
      premise.Holds a.IsTrue ∧ ¬conclusion.Holds a.IsTrue := by
  classical
  have hdomain : a ∈ jointAssignments premise.formula conclusion.formula ↔
      a.domain = premise.vocabulary ∪ conclusion.vocabulary := Vocabulary.mem_assignments
  constructor
  · rintro ⟨hd, hp, hc⟩
    have ha := hdomain.mpr hd
    obtain ⟨hcp, hcc⟩ := covers_of_mem_jointAssignments ha
    rw [evaluate_of_covers hcp, Except.ok.injEq, decide_eq_true_iff] at hp
    rw [evaluate_of_covers hcc, Except.ok.injEq, decide_eq_false_iff_not] at hc
    exact ⟨ha, hp, hc⟩
  · rintro ⟨ha, hp, hc⟩
    obtain ⟨hcp, hcc⟩ := covers_of_mem_jointAssignments ha
    refine ⟨hdomain.mp ha, ?_, ?_⟩
    · rw [evaluate_of_covers hcp, decide_eq_true hp]
    · rw [evaluate_of_covers hcc, decide_eq_false hc]

/-- The search finds the least refuting assignment: the assignments ascend, and it stops at the
first. -/
theorem counterexample?_eq_some_iff {a : Assignment} :
    counterexample? premise.formula conclusion.formula = .ok (some a) ↔
      Refutes premise conclusion a ∧ ∀ b, Refutes premise conclusion b → (compare a b).isLE := by
  classical
  have hsearch : counterexample? premise.formula conclusion.formula = _ :=
    counterexample?_eq_ok fun _ ↦ covers_of_mem_jointAssignments
  rw [hsearch, Except.ok.injEq,
    Ascending.find?_eq_some_iff (Vocabulary.assignments_ascending _)]
  simp only [decide_eq_true_iff, refutes_iff, and_imp, and_assoc]
  rfl

/-- Listing assignments tells no counterexample. -/
theorem refuted_not_mem_assignmentsTrace (v : Vocabulary) (a : Assignment) :
    .refuted a ∉ v.assignmentsTrace := by
  rw [Vocabulary.assignmentsTrace, Vocabulary.assignmentsAccount]
  split <;> simp

/-- A counterexample is told exactly if the search finds it. -/
theorem refuted_mem_entailsTrace_iff {premise conclusion : Formula} {a : Assignment} :
    .refuted a ∈ entailsTrace premise conclusion ↔
      counterexample? premise conclusion = .ok (some a) := by
  rw [entailsTrace, entailsAccount, Vocabulary.events_bind_assignmentsAccount, List.mem_append,
    or_iff_right (refuted_not_mem_assignmentsTrace _ a), entailsAmong_findM?, counterexample?,
    jointAssignments]
  cases (premise.vocabulary ∪ conclusion.vocabulary).assignments.findM?
    (refutedUnder premise conclusion) with
  | error e => simp
  | ok found =>
    cases found with
    | none => simp
    | some b => simp [eq_comm]

/-- The verdict says whether the search has found nothing. -/
theorem entails_eq_ok_iff {premise conclusion : Formula} {verdict : Bool} :
    entails premise conclusion = .ok verdict ↔
      ∃ found, counterexample? premise conclusion = .ok found ∧ found.isNone = verdict := by
  rw [entails_eq]
  cases counterexample? premise conclusion with
  | error e => simp [bind, Except.bind]
  | ok found => simp [bind, Except.bind, pure, Except.pure]

/-- Entailment fails exactly if a counterexample is told. -/
theorem entails_eq_false_iff {premise conclusion : Formula} :
    entails premise conclusion = .ok false ↔
      ∃ a, .refuted a ∈ entailsTrace premise conclusion := by
  rw [entails_eq_ok_iff]
  simp only [refuted_mem_entailsTrace_iff]
  constructor
  · rintro ⟨found, hfound, hsome⟩
    obtain ⟨a, rfl⟩ := Option.isSome_iff_exists.mp (Option.isNone_eq_false_iff.mp hsome)
    exact ⟨a, hfound⟩
  · rintro ⟨a, ha⟩
    exact ⟨some a, ha, rfl⟩

/-- What holds under all valuations is what evaluation says under all assignments that cover both
sentences. -/
theorem forall_holds_iff :
    (∀ valuation, premise.Holds valuation → conclusion.Holds valuation) ↔
      ∀ a : Assignment, a.Covers premise → a.Covers conclusion →
        premise.evaluate a = .ok true → conclusion.evaluate a = .ok true := by
  classical
  constructor
  · intro h a hp hc hpremise
    rw [evaluate_of_covers hp, Except.ok.injEq, decide_eq_true_iff] at hpremise
    rw [evaluate_of_covers hc, decide_eq_true (h _ hpremise)]
  · intro h valuation hpremise
    obtain ⟨a, ha, hpa, hca⟩ := exists_jointAssignment premise conclusion valuation
    obtain ⟨hp, hc⟩ := covers_of_mem_jointAssignments ha
    have hconclusion := h a hp hc (by rw [evaluate_of_covers hp, decide_eq_true (hpa.mpr hpremise)])
    rw [evaluate_of_covers hc, Except.ok.injEq, decide_eq_true_iff, hca] at hconclusion
    exact hconclusion

/-- Deciding whether a sentence entails another never fails. It says yes exactly if every assignment
with values for their variables, whatever else it assigns, that makes the first true makes the
second true. It says no exactly if it tells a counterexample, which is the least of those
assignments to just their variables that make the first true and the second false. -/
theorem entails_decides (premise conclusion : Sentence) :
    (∃ verdict, entails premise.formula conclusion.formula = .ok verdict) ∧
    (entails premise.formula conclusion.formula = .ok true ↔
      ∀ a : Assignment, a.Covers premise → a.Covers conclusion →
        premise.evaluate a = .ok true → conclusion.evaluate a = .ok true) ∧
    (entails premise.formula conclusion.formula = .ok false ↔
      ∃ a, .refuted a ∈ entailsTrace premise.formula conclusion.formula) ∧
    (entails premise.formula conclusion.formula = .ok true ↔
      ∀ a, .refuted a ∉ entailsTrace premise.formula conclusion.formula) ∧
    ∀ a, .refuted a ∈ entailsTrace premise.formula conclusion.formula ↔
      Refutes premise conclusion a ∧ ∀ b, Refutes premise conclusion b → (compare a b).isLE := by
  classical
  have hverdict := entails_eq_ok premise conclusion
  refine ⟨⟨_, hverdict⟩, ?_, entails_eq_false_iff, ?_, fun a ↦ ?_⟩
  · rw [entails_eq_true_iff, forall_holds_iff]
  · rw [← not_exists, ← entails_eq_false_iff, hverdict, Except.ok.injEq, Except.ok.injEq,
      Bool.not_eq_false]
  · rw [refuted_mem_entailsTrace_iff, counterexample?_eq_some_iff]

end Formula

end Sentential

import Sentential.Proofs.Formula.Entailment
import Sentential.Trace

/-!
# Agreement of sentences

For sentences the comparison under all assignments over their joint vocabulary never fails. It
splits these into two ascending lists, and it speaks for all assignments that give values to the
variables of both, whatever else they assign.
-/

namespace Sentential

namespace Formula

open Sentence

variable {left right : Sentence}

/-- Both sentences hold under an assignment, or neither does. -/
def AgreeUnder (left right : Sentence) (a : Assignment) : Prop :=
  left.Holds a.IsTrue ↔ right.Holds a.IsTrue

/-- Under an assignment that covers both, sentences agree when they have the same value. -/
theorem agreeUnder_iff {a : Assignment} (hl : a.Covers left) (hr : a.Covers right) :
    AgreeUnder left right a ↔ left.evaluate a = right.evaluate a := by
  classical
  rw [evaluate_of_covers hl, evaluate_of_covers hr, Except.ok.injEq, decide_eq_decide, AgreeUnder]

section Vocabularies

variable {vl vr : Vocabulary}

open Classical in
/-- Under an assignment that covers both, the comparison says whether sentences agree. -/
theorem agreeUnder_eq_ok {a : Assignment} (hl : a.Covers left) (hr : a.Covers right) :
    agreeUnder (left.formulaOver vl) (right.formulaOver vr) a =
      .ok (decide (AgreeUnder left right a)) := by
  have hle : (left.formulaOver vl).evaluate a = _ := evaluate_of_covers hl
  have hre : (right.formulaOver vr).evaluate a = _ := evaluate_of_covers hr
  rw [agreeUnder, hle, hre]
  by_cases h : left.Holds a.IsTrue <;> by_cases h' : right.Holds a.IsTrue <;>
    simp [AgreeUnder, h, h', bind, Except.bind, pure, Except.pure]

open Classical in
/-- Where all joint assignments cover both sentences, the comparison does not fail, and splits
them. -/
theorem agreement_eq_ok (h : ∀ a ∈ (vl ∪ vr).assignments, a.Covers left ∧ a.Covers right) :
    agreement (left.formulaOver vl) (right.formulaOver vr) = .ok
      { agreeing := (vl ∪ vr).assignments.filter fun a ↦ decide (AgreeUnder left right a)
        disagreeing := (vl ∪ vr).assignments.filter fun a ↦
          !decide (AgreeUnder left right a) } := by
  have hverdicts : ((jointAssignments (left.formulaOver vl) (right.formulaOver vr)).mapM fun a ↦ do
      return (a, ← agreeUnder (left.formulaOver vl) (right.formulaOver vr) a)) =
        .ok ((vl ∪ vr).assignments.map fun a ↦ (a, decide (AgreeUnder left right a))) := by
    apply mapM_eq_ok_map
    intro a ha
    obtain ⟨hl, hr⟩ := h a ha
    rw [agreeUnder_eq_ok hl hr]
    rfl
  rw [agreement_eq, agreementAmong, hverdicts]
  apply congrArg Except.ok
  simp [List.filter_map, Function.comp_def]

end Vocabularies

/-- A split that the comparison makes, as the two parts of the joint assignments. -/
structure IsSplit (left right : Sentence) (split : Agreement) : Prop where
  mem_agreeing : ∀ a, a ∈ split.agreeing ↔
    a ∈ jointAssignments left.formula right.formula ∧ AgreeUnder left right a
  mem_disagreeing : ∀ a, a ∈ split.disagreeing ↔
    a ∈ jointAssignments left.formula right.formula ∧ ¬AgreeUnder left right a
  agreeing_ascending : Ascending compare split.agreeing
  disagreeing_ascending : Ascending compare split.disagreeing
  length_add_length : split.agreeing.length + split.disagreeing.length =
    2 ^ (left.vocabulary ∪ right.vocabulary).size

/-- The comparison splits the joint assignments by whether the sentences agree. -/
theorem exists_isSplit (left right : Sentence) :
    ∃ split, agreement left.formula right.formula = .ok split ∧ IsSplit left right split := by
  classical
  have hascending : Ascending compare (jointAssignments left.formula right.formula) :=
    Vocabulary.assignments_ascending _
  have hsplit : agreement left.formula right.formula = .ok
      { agreeing := (jointAssignments left.formula right.formula).filter fun a ↦
          decide (AgreeUnder left right a)
        disagreeing := (jointAssignments left.formula right.formula).filter fun a ↦
          !decide (AgreeUnder left right a) } :=
    agreement_eq_ok fun _ ↦ covers_of_mem_jointAssignments
  refine ⟨_, hsplit, ⟨fun a ↦ ?_, fun a ↦ ?_, hascending.filter _,
    hascending.filter _, ?_⟩⟩
  · simp
  · simp
  · have hsize : (jointAssignments left.formula right.formula).length =
        2 ^ (left.vocabulary ∪ right.vocabulary).size := Vocabulary.length_assignments _
    have hparts := List.length_eq_countP_add_countP (fun a ↦ decide (AgreeUnder left right a))
      (l := jointAssignments left.formula right.formula)
    rw [List.countP_eq_length_filter, List.countP_eq_length_filter] at hparts
    rw [← hsize, hparts]
    simp

/-- A comparison that succeeds tells how many assignments there are on each side. -/
theorem agreementTrace_of_ok {left right : Formula} {split : Agreement}
    (h : agreement left right = .ok split) :
    agreementTrace left right =
      (left.vocabulary ∪ right.vocabulary).assignmentsTrace ++
        [.compared split.agreeing.length split.disagreeing.length
          (left.vocabulary ∪ right.vocabulary)] := by
  rw [agreement_eq, jointAssignments] at h
  rw [agreementTrace, agreementAccount, Vocabulary.events_bind_assignmentsAccount, h]
  rfl

/-- Sentences agree under all joint assignments exactly if they have the same value under every
assignment that covers both. -/
theorem forall_agreeUnder_iff :
    (∀ a ∈ jointAssignments left.formula right.formula, AgreeUnder left right a) ↔
      ∀ a : Assignment, a.Covers left → a.Covers right → left.evaluate a = right.evaluate a := by
  constructor
  · intro h a hl hr
    obtain ⟨b, hb, hlb, hrb⟩ := exists_jointAssignment left right a.IsTrue
    rw [← agreeUnder_iff hl hr, AgreeUnder, ← hlb, ← hrb]
    exact h b hb
  · intro h a ha
    obtain ⟨hl, hr⟩ := covers_of_mem_jointAssignments ha
    exact (agreeUnder_iff hl hr).mpr (h a hl hr)

/-- Comparing sentences never fails. It splits the assignments over the variables of both into
those under which they have the same value and the others, tells how many there are of each, and
finds the sentences equivalent exactly if they have the same value under every assignment that
gives values to their variables, whatever else it assigns. -/
theorem agreement_decides (left right : Sentence) :
    (∃ split, agreement left.formula right.formula = .ok split ∧
      (∀ a ∈ split.agreeing, a ∉ split.disagreeing) ∧
      (∀ a, a ∈ split.agreeing ∨ a ∈ split.disagreeing ↔
        a.domain = left.vocabulary ∪ right.vocabulary) ∧
      (∀ a, a ∈ split.agreeing ↔ a.domain = left.vocabulary ∪ right.vocabulary ∧
        ∃ value, left.evaluate a = .ok value ∧ right.evaluate a = .ok value) ∧
      Ascending compare split.agreeing ∧ Ascending compare split.disagreeing ∧
      agreementTrace left.formula right.formula =
        (left.vocabulary ∪ right.vocabulary).assignmentsTrace ++
          [.compared split.agreeing.length split.disagreeing.length
            (left.vocabulary ∪ right.vocabulary)] ∧
      split.agreeing.length + split.disagreeing.length =
        2 ^ (left.vocabulary ∪ right.vocabulary).size) ∧
    (isEquivalent left.formula right.formula = .ok true ↔
      ∀ a : Assignment, a.Covers left → a.Covers right → left.evaluate a = right.evaluate a) := by
  obtain ⟨split, hsplit, h⟩ := exists_isSplit left right
  have hdomain (a : Assignment) : a ∈ jointAssignments left.formula right.formula ↔
      a.domain = left.vocabulary ∪ right.vocabulary := Vocabulary.mem_assignments
  refine ⟨⟨split, hsplit, fun a ha hd ↦ ?_, fun a ↦ ?_, fun a ↦ ?_, h.agreeing_ascending,
    h.disagreeing_ascending, ?_, h.length_add_length⟩, ?_⟩
  · exact ((h.mem_disagreeing a).mp hd).2 ((h.mem_agreeing a).mp ha).2
  · rw [h.mem_agreeing, h.mem_disagreeing, ← and_or_left, hdomain]
    exact and_iff_left (Classical.em _)
  · rw [h.mem_agreeing, hdomain]
    apply and_congr_right
    intro ha
    obtain ⟨hl, hr⟩ := covers_of_mem_jointAssignments ((hdomain a).mpr ha)
    rw [agreeUnder_iff hl hr, evaluate_of_covers hl]
    constructor
    · intro he
      exact ⟨_, rfl, he.symm⟩
    · rintro ⟨value, hv, he⟩
      exact hv.trans he.symm
  · exact agreementTrace_of_ok hsplit
  · rw [isEquivalent, hsplit, ← forall_agreeUnder_iff]
    change Except.ok split.isComplete = _ ↔ _
    rw [Except.ok.injEq, Agreement.isComplete, List.isEmpty_iff, List.eq_nil_iff_forall_not_mem]
    simp only [h.mem_disagreeing, not_and, Classical.not_not]

end Formula

end Sentential

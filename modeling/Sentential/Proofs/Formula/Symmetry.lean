import Sentential.Proofs.Formula.Agreement

/-!
# Comparing in the other order, and comparing negations

A split of the joint assignments is determined by the sentences that are compared, since its parts
are listed in order. It is the same split when the sentences change places, and its parts change
places when one of the sentences is negated. A sentence agrees with itself everywhere, so with its
negation it agrees nowhere.
-/

namespace Sentential

/-- The split whose parts have changed places. -/
def Agreement.exchanged (split : Agreement) : Agreement := ⟨split.disagreeing, split.agreeing⟩

namespace Formula

open Sentence

variable {left right : Sentence} {split : Agreement}

/-- The joint assignments do not depend on which formula is named first. -/
theorem jointAssignments_comm (left right : Formula) :
    jointAssignments right left = jointAssignments left right := by
  rw [jointAssignments, jointAssignments, SortedSet.union_comm]

/-- Agreement does not depend on which sentence is named first. -/
theorem agreeUnder_comm {a : Assignment} : AgreeUnder right left a ↔ AgreeUnder left right a :=
  iff_comm

/-- A sentence agrees with the negation of another where it does not agree with the other. -/
theorem agreeUnder_negation {a : Assignment} :
    AgreeUnder left (negation right) a ↔ ¬AgreeUnder left right a := by
  rw [AgreeUnder, AgreeUnder, Holds]
  by_cases hl : left.Holds a.IsTrue <;> by_cases hr : right.Holds a.IsTrue <;> simp [hl, hr]

namespace IsSplit

/-- There is only one split, as the order of its parts is settled. -/
theorem eq {split' : Agreement} (h : IsSplit left right split) (h' : IsSplit left right split') :
    split = split' := by
  have hagreeing : split.agreeing = split'.agreeing :=
    Ascending.eq_of_mem_iff h.agreeing_ascending h'.agreeing_ascending fun a ↦ by
      rw [h.mem_agreeing, h'.mem_agreeing]
  have hdisagreeing : split.disagreeing = split'.disagreeing :=
    Ascending.eq_of_mem_iff h.disagreeing_ascending h'.disagreeing_ascending fun a ↦ by
      rw [h.mem_disagreeing, h'.mem_disagreeing]
  cases split
  cases split'
  rw [Agreement.mk.injEq]
  exact ⟨hagreeing, hdisagreeing⟩

/-- The split is the one that the comparison makes. -/
theorem agreement_eq (h : IsSplit left right split) :
    agreement left.formula right.formula = .ok split := by
  obtain ⟨split', hsplit, h'⟩ := exists_isSplit left right
  rw [hsplit, h'.eq h]

/-- The sentences may change places. -/
theorem symm (h : IsSplit left right split) : IsSplit right left split where
  mem_agreeing a := by rw [h.mem_agreeing, jointAssignments_comm, agreeUnder_comm]
  mem_disagreeing a := by rw [h.mem_disagreeing, jointAssignments_comm, agreeUnder_comm]
  agreeing_ascending := h.agreeing_ascending
  disagreeing_ascending := h.disagreeing_ascending
  length_add_length := by rw [h.length_add_length, SortedSet.union_comm]

/-- If the second sentence is negated, the parts change places. -/
theorem negation_right (h : IsSplit left right split) :
    IsSplit left (negation right) split.exchanged where
  mem_agreeing a := by
    rw [agreeUnder_negation]
    exact h.mem_disagreeing a
  mem_disagreeing a := by
    rw [agreeUnder_negation, Classical.not_not]
    exact h.mem_agreeing a
  agreeing_ascending := h.disagreeing_ascending
  disagreeing_ascending := h.agreeing_ascending
  length_add_length := (Nat.add_comm _ _).trans h.length_add_length

/-- If the first sentence is negated, the parts change places. -/
theorem negation_left (h : IsSplit left right split) :
    IsSplit (negation left) right split.exchanged := h.symm.negation_right.symm

/-- A sentence agrees with itself under all assignments over its variables. -/
theorem self (s : Sentence) : IsSplit s s ⟨s.vocabulary.assignments, []⟩ := by
  have hjoint : jointAssignments s.formula s.formula = s.vocabulary.assignments :=
    congrArg Vocabulary.assignments (SortedSet.union_self s.vocabulary)
  refine ⟨fun a ↦ ?_, fun a ↦ ?_, s.vocabulary.assignments_ascending, Ascending.nil, ?_⟩
  · rw [hjoint]
    exact (and_iff_left Iff.rfl).symm
  · exact iff_of_false List.not_mem_nil fun h ↦ h.2 Iff.rfl
  · rw [SortedSet.union_self, Vocabulary.length_assignments]
    rfl

end IsSplit

/-- Comparing sentences in either order splits their joint assignments in the same way. If one of
them is negated, those under which they agree and the others change places. So a sentence agrees
with its negation under none of the `2 ^ n` assignments over its variables, and as there is at least
one, the two are not equivalent. -/
theorem agreement_symmetry :
    (∀ left right : Sentence, ∃ split,
      agreement left.formula right.formula = .ok split ∧
      agreement right.formula left.formula = .ok split ∧
      agreement left.formula (negation right).formula = .ok split.exchanged ∧
      agreement (negation left).formula right.formula = .ok split.exchanged) ∧
    ∀ s : Sentence,
      agreement s.formula (negation s).formula = .ok ⟨[], s.vocabulary.assignments⟩ ∧
      s.vocabulary.assignments.length = 2 ^ s.vocabulary.size ∧
      isEquivalent s.formula (negation s).formula = .ok false := by
  refine ⟨fun left right ↦ ?_, fun s ↦ ?_⟩
  · obtain ⟨split, hsplit, h⟩ := exists_isSplit left right
    exact ⟨split, hsplit, h.symm.agreement_eq, h.negation_right.agreement_eq,
      h.negation_left.agreement_eq⟩
  · have hnowhere : agreement s.formula (negation s).formula = .ok ⟨[], s.vocabulary.assignments⟩ :=
      (IsSplit.self s).negation_right.agreement_eq
    obtain ⟨a, hfirst, -⟩ := s.vocabulary.exists_head?_assignments
    obtain ⟨rest, hassignments⟩ := List.head?_eq_some_iff.mp hfirst
    refine ⟨hnowhere, s.vocabulary.length_assignments, ?_⟩
    rw [isEquivalent, hnowhere, hassignments]
    rfl

end Formula

end Sentential

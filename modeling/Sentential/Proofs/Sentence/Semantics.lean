import Sentential.Proofs.Assignment.Enumeration
import Sentential.Sentence.Evaluation
import Sentential.Sentence.Order
import Sentential.Sentence.Truth

/-!
# Evaluation and truth

Under an assignment that gives values to all variables of a sentence, evaluation says whether the
sentence holds where exactly the variables with the value true do. Both depend on the variables
of the sentence only.
-/

namespace Sentential

/-- Truth functions compute what connectives say. -/
theorem Connective.apply_decide (c : Connective) (p q : Prop) [Decidable p] [Decidable q]
    [Decidable (c.Holds p q)] : c.apply (decide p) (decide q) = decide (c.Holds p q) := by
  by_cases hp : p <;> by_cases hq : q <;> cases c <;> simp [apply, Holds, hp, hq]

/-- Connectives combine equivalent propositions to equivalent ones. -/
theorem Connective.holds_congr (c : Connective) {p p' q q' : Prop} (hp : p ↔ p') (hq : q ↔ q') :
    c.Holds p q ↔ c.Holds p' q' := by
  rw [propext hp, propext hq]

namespace Assignment

/-- All variables of the sentence have a value. -/
def Covers (a : Assignment) (s : Sentence) : Prop := ∀ v ∈ s.atoms, v ∈ a.domain

variable {a : Assignment}

/-- Covering a negation is covering its target. -/
theorem covers_negation {target : Sentence} : a.Covers (.negation target) ↔ a.Covers target :=
  Iff.rfl

/-- Covering a connective is covering both operands. -/
theorem covers_binary {c : Connective} {left right : Sentence} :
    a.Covers (.binary c left right) ↔ a.Covers left ∧ a.Covers right := by
  rw [Covers, Sentence.atoms, List.forall_mem_append]
  rfl

/-- Covering a set is covering all members. -/
theorem covers_set {members : List Sentence} :
    a.Covers (.set members) ↔ ∀ s ∈ members, a.Covers s := by
  rw [Covers, Sentence.atoms, Sentence.memberAtoms_eq_flatMap]
  simp only [List.mem_flatMap, forall_exists_index, and_imp, Covers]
  constructor
  · intro h s hs v hv
    exact h v s hs hv
  · intro h v s hs hv
    exact h s hs v hv

/-- Assignments over a vocabulary that has the variables of the sentence cover it. -/
theorem covers_of_domain {s : Sentence} (h : ∀ v ∈ s.vocabulary, v ∈ a.domain) : a.Covers s := by
  intro v hv
  exact h v (Sentence.mem_vocabulary.mpr hv)

end Assignment

namespace Sentence

open Assignment

open Classical in
private theorem evaluateAll_of_forall {a : Assignment} {members : List Sentence}
    (h : ∀ s ∈ members, s.evaluate a = .ok (decide (s.Holds a.IsTrue))) :
    evaluateAll a members = .ok (decide (AllHold a.IsTrue members)) := by
  induction members with
  | nil =>
    have hall : AllHold a.IsTrue [] := trivial
    rw [evaluateAll, decide_eq_true hall]
  | cons s rest ih =>
    have hrest : evaluateAll a rest = .ok (decide (AllHold a.IsTrue rest)) :=
      ih fun t ht ↦ h t (List.mem_cons_of_mem s ht)
    rw [evaluateAll, h s List.mem_cons_self, hrest]
    apply congrArg Except.ok
    rw [Bool.eq_iff_iff, Bool.and_eq_true, decide_eq_true_iff, decide_eq_true_iff,
      decide_eq_true_iff, AllHold]

open Classical in
/-- Under a covering assignment a sentence has a value, which says whether it holds. -/
theorem evaluate_of_covers {a : Assignment} {s : Sentence} (h : a.Covers s) :
    s.evaluate a = .ok (decide (s.Holds a.IsTrue)) := by
  induction s with
  | atom v =>
    have hd : (a.get? v).isSome = true := mem_domain.mp (h v (List.mem_singleton_self v))
    obtain ⟨value, hv⟩ := Option.isSome_iff_exists.mp hd
    rw [evaluate, hv]
    cases value <;> simp [Holds, IsTrue, hv]
  | negation target ih =>
    rw [evaluate, ih (covers_negation.mp h)]
    apply congrArg Except.ok
    rw [Bool.eq_iff_iff, Bool.not_eq_true', decide_eq_false_iff_not, decide_eq_true_iff, Holds]
  | binary c left right ihl ihr =>
    obtain ⟨hl, hr⟩ := covers_binary.mp h
    rw [evaluate, ihl hl, ihr hr]
    exact congrArg Except.ok (c.apply_decide _ _)
  | set members ih =>
    have hm := covers_set.mp h
    exact evaluateAll_of_forall fun s hs ↦ ih s hs (hm s hs)

/-- Truth depends on the variables of the sentence only. -/
theorem holds_congr {p q : Variable → Prop} {s : Sentence} (h : ∀ v ∈ s.atoms, (p v ↔ q v)) :
    s.Holds p ↔ s.Holds q := by
  induction s with
  | atom v => exact h v (List.mem_singleton_self v)
  | negation target ih => exact not_congr (ih h)
  | binary c left right ihl ihr =>
    rw [atoms, List.forall_mem_append] at h
    exact c.holds_congr (ihl h.1) (ihr h.2)
  | set members ih =>
    rw [atoms, memberAtoms_eq_flatMap] at h
    rw [Holds, Holds, allHold_iff, allHold_iff]
    have hm : ∀ s ∈ members, (s.Holds p ↔ s.Holds q) := by
      intro s hs
      apply ih s hs
      intro v hv
      exact h v (List.mem_flatMap.mpr ⟨s, hs, hv⟩)
    constructor
    · intro hp s hs
      exact (hm s hs).mp (hp s hs)
    · intro hq s hs
      exact (hm s hs).mpr (hq s hs)

/-- A set holds when all sentences that it was made of do. -/
theorem holds_setOf {valuation : Variable → Prop} {sentences : List Sentence} :
    (setOf sentences).Holds valuation ↔ ∀ s ∈ sentences, s.Holds valuation := by
  rw [setOf, Holds, allHold_iff]
  simp only [SortedSet.mem_toList, SortedSet.mem_ofList]

end Sentence

end Sentential

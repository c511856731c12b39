import Mathlib.Data.List.Find
import Sentential.Proofs.Sentence.Semantics

/-!
# Where a sentence has a value

Evaluation looks at all atoms of a sentence, from left to right. Where some of them have no value it
fails and names the leftmost of these, whatever values the others have. Elsewhere it says whether
the sentence holds, which depends on the values of its own variables only.
-/

namespace Sentential

namespace Sentence

/-- The leftmost variable of a sentence that is not in the vocabulary. -/
def leftmostOutside? (s : Sentence) (vocabulary : Vocabulary) : Option Variable :=
  s.atoms.find? fun v ↦ decide (v ∉ vocabulary)

/-- There is none exactly if the vocabulary has all variables of the sentence. -/
theorem leftmostOutside?_eq_none_iff {s : Sentence} {vocabulary : Vocabulary} :
    s.leftmostOutside? vocabulary = none ↔ ∀ v ∈ s.vocabulary, v ∈ vocabulary := by
  rw [leftmostOutside?, List.find?_eq_none]
  simp only [decide_eq_true_iff, Classical.not_not, mem_vocabulary]

/-- A variable of the left operand comes before all of the right one. -/
theorem leftmostOutside?_binary (c : Connective) (left right : Sentence)
    (vocabulary : Vocabulary) : (binary c left right).leftmostOutside? vocabulary =
      (left.leftmostOutside? vocabulary).or (right.leftmostOutside? vocabulary) := by
  rw [leftmostOutside?, atoms, List.find?_append]
  rfl

/-- An assignment covers a sentence exactly if none of its variables is outside. -/
theorem covers_iff_leftmostOutside? {a : Assignment} {s : Sentence} :
    a.Covers s ↔ s.leftmostOutside? a.domain = none := by
  rw [leftmostOutside?_eq_none_iff]
  simp only [Assignment.Covers, mem_vocabulary]

private theorem evaluateAll_of_find? {a : Assignment} {members : List Sentence} {v : Variable}
    (ih : ∀ s ∈ members, s.leftmostOutside? a.domain = some v → s.evaluate a = .error ⟨v⟩)
    (h : (memberAtoms members).find? (fun v ↦ decide (v ∉ a.domain)) = some v) :
    evaluateAll a members = .error ⟨v⟩ := by
  induction members with
  | nil => cases h
  | cons s rest ihrest =>
    rw [memberAtoms, List.find?_append, Option.or_eq_some_iff] at h
    rw [evaluateAll]
    rcases h with hs | ⟨hs, hrest⟩
    · rw [ih s List.mem_cons_self hs]
      rfl
    · rw [evaluate_of_covers (covers_iff_leftmostOutside?.mpr hs),
        ihrest (fun t ht ↦ ih t (List.mem_cons_of_mem s ht)) hrest]
      rfl

/-- Evaluation fails with the leftmost variable that has no value. -/
theorem evaluate_of_leftmostOutside? {a : Assignment} {s : Sentence} {v : Variable}
    (h : s.leftmostOutside? a.domain = some v) : s.evaluate a = .error ⟨v⟩ := by
  induction s with
  | atom w =>
    rw [leftmostOutside?, atoms, List.find?_singleton] at h
    split at h
    · next hw =>
      rw [decide_eq_true_iff, Assignment.mem_domain, Bool.not_eq_true, Option.isSome_eq_false_iff,
        Option.isNone_iff_eq_none] at hw
      rw [evaluate, hw, Option.some.inj h]
    · cases h
  | negation target ih =>
    rw [evaluate, ih h]
    rfl
  | binary c left right ihl ihr =>
    rw [leftmostOutside?_binary, Option.or_eq_some_iff] at h
    rw [evaluate]
    rcases h with hl | ⟨hl, hr⟩
    · rw [ihl hl]
      rfl
    · rw [evaluate_of_covers (covers_iff_leftmostOutside?.mpr hl), ihr hr]
      rfl
  | set members ih =>
    rw [evaluate]
    exact evaluateAll_of_find? ih h

open Classical in
/-- Evaluation either names the leftmost variable that has no value or says whether the sentence
holds. -/
theorem evaluate_eq (s : Sentence) (a : Assignment) :
    s.evaluate a =
      match s.leftmostOutside? a.domain with
      | some v => .error ⟨v⟩
      | none => .ok (decide (s.Holds a.IsTrue)) := by
  cases h : s.leftmostOutside? a.domain with
  | some v => exact evaluate_of_leftmostOutside? h
  | none => exact evaluate_of_covers (covers_iff_leftmostOutside?.mpr h)

/-- A value says whether the sentence holds. -/
theorem eq_true_iff_of_evaluate {s : Sentence} {a : Assignment} {value : Bool}
    (h : s.evaluate a = .ok value) : value = true ↔ s.Holds a.IsTrue := by
  classical
  rw [evaluate_eq] at h
  split at h
  · cases h
  · rw [← Except.ok.inj h, decide_eq_true_iff]

/-- Evaluation fails exactly with the leftmost variable that has no value. -/
theorem evaluate_eq_error_iff {s : Sentence} {a : Assignment} {v : Variable} :
    s.evaluate a = .error ⟨v⟩ ↔ s.leftmostOutside? a.domain = some v := by
  classical
  rw [evaluate_eq]
  cases s.leftmostOutside? a.domain with
  | some w => rw [Except.error.injEq, UnassignedVariable.mk.injEq, Option.some.injEq]
  | none => exact iff_of_false nofun nofun

/-- Evaluation succeeds exactly if all variables of the sentence have values. -/
theorem exists_evaluate_eq_ok_iff {s : Sentence} {a : Assignment} :
    (∃ value, s.evaluate a = .ok value) ↔ s.vocabulary ⊆ a.domain := by
  classical
  have hnone : s.leftmostOutside? a.domain = none ↔ s.vocabulary ⊆ a.domain :=
    leftmostOutside?_eq_none_iff
  rw [← hnone, evaluate_eq]
  cases s.leftmostOutside? a.domain with
  | some w => exact iff_of_false nofun nofun
  | none => exact iff_of_true ⟨_, rfl⟩ rfl

/-- Evaluation depends on the values of the variables of the sentence only. -/
theorem evaluate_congr {s : Sentence} {a b : Assignment}
    (h : ∀ v ∈ s.vocabulary, a.get? v = b.get? v) : s.evaluate a = s.evaluate b := by
  classical
  simp only [mem_vocabulary] at h
  have houtside : s.leftmostOutside? a.domain = s.leftmostOutside? b.domain := by
    apply List.find?_congr
    intro v hv
    rw [decide_eq_decide, Assignment.mem_domain, Assignment.mem_domain, h v hv]
  have hholds : s.Holds a.IsTrue ↔ s.Holds b.IsTrue := by
    apply holds_congr
    intro v hv
    rw [Assignment.IsTrue, Assignment.IsTrue, h v hv]
  rw [evaluate_eq, evaluate_eq, houtside, propext hholds]

/-- The leftmost variable outside of a vocabulary, in a set, is that of the first member in
structural order that has any. -/
theorem leftmostOutside?_setOf (sentences : List Sentence) (vocabulary : Vocabulary) :
    (setOf sentences).leftmostOutside? vocabulary =
      (SortedSet.ofList sentences).toList.findSome? fun s ↦ s.leftmostOutside? vocabulary := by
  rw [leftmostOutside?, setOf, atoms, memberAtoms_eq_flatMap, List.find?_flatMap]
  rfl

/-- A sentence has a value under an assignment exactly if all its variables have values there. The
value says whether the sentence holds and depends on the values of its own variables only. Otherwise
the error names the leftmost variable that has no value, whatever values the others have, where the
members of a set stand in structural order. -/
theorem evaluate_decides (s : Sentence) (a : Assignment) :
    ((∃ value, s.evaluate a = .ok value) ↔ s.vocabulary ⊆ a.domain) ∧
    (∀ value, s.evaluate a = .ok value → (value = true ↔ s.Holds a.IsTrue)) ∧
    (∀ b : Assignment, b.restrict s.vocabulary = a.restrict s.vocabulary →
      s.evaluate b = s.evaluate a) ∧
    (∀ v, s.evaluate a = .error ⟨v⟩ ↔ s.leftmostOutside? a.domain = some v) ∧
    ∀ sentences, (setOf sentences).leftmostOutside? a.domain =
      (SortedSet.ofList sentences).toList.findSome? fun t ↦ t.leftmostOutside? a.domain := by
  refine ⟨exists_evaluate_eq_ok_iff, fun value ↦ eq_true_iff_of_evaluate, fun b h ↦ ?_,
    fun v ↦ evaluate_eq_error_iff, fun sentences ↦ leftmostOutside?_setOf sentences _⟩
  apply evaluate_congr
  intro v hv
  have hvalue := congrArg (fun c ↦ c.get? v) h
  rwa [Assignment.get?_restrict, Assignment.get?_restrict, if_pos hv, if_pos hv] at hvalue

end Sentence

end Sentential

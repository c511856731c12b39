import Mathlib.Algebra.Group.Nat.Defs
import Sentential.Assignment.Enumeration

/-!
# The assignments over a vocabulary

There are as many assignments over a vocabulary as binary numbers with a digit for each variable.
They are listed in ascending order, and every valuation agrees with one of them on the vocabulary.
-/

namespace Sentential

/-- There are as many rows as a binary number of that length has values. -/
@[simp] theorem length_truthRows (n : Nat) : (truthRows n).length = 2 ^ n := by
  induction n with
  | zero => rfl
  | succ n ih =>
    simp only [truthRows, List.length_append, List.length_map, ih]
    omega

/-- Values are compared with true before false. -/
abbrev compareValues : Bool → Bool → Ordering := compareOn fun value ↦ !value

/-- The rows are listed in ascending order. -/
theorem truthRows_ascending (n : Nat) :
    Ascending (List.compareLex compareValues) (truthRows n) := by
  induction n with
  | zero => exact List.pairwise_singleton ..
  | succ n ih =>
    have hself (value : Bool) : compareValues value value = .eq := by cases value <;> rfl
    have hbehind (value : Bool) : Ascending (List.compareLex compareValues)
        ((truthRows n).map (value :: ·)) := by
      refine List.pairwise_map.mpr (ih.imp fun hlt ↦ ?_)
      rw [List.compareLex_cons_cons, hself, hlt]
      rfl
    refine List.pairwise_append.mpr ⟨hbehind true, hbehind false, ?_⟩
    simp only [List.mem_map]
    rintro _ ⟨row, -, rfl⟩ _ ⟨row', -, rfl⟩
    rw [List.compareLex_cons_cons]
    rfl

/-- The variable has the value true. -/
def Assignment.IsTrue (a : Assignment) (v : Variable) : Prop := a.get? v = some true

namespace Vocabulary

/-- A vocabulary of `n` variables has `2 ^ n` assignments. -/
@[simp] theorem length_assignments (v : Vocabulary) : v.assignments.length = 2 ^ v.size := by
  simp [assignments]

/-- Every vocabulary has a first assignment. -/
theorem exists_head?_assignments (v : Vocabulary) :
    ∃ a, v.assignments.head? = some a ∧ a.domain = v := by
  obtain ⟨a, ha⟩ : ∃ a, v.assignments.head? = some a := by
    rw [← Option.isSome_iff_exists, List.isSome_head?]
    intro hnil
    have hlength := v.length_assignments
    rw [hnil, List.length_nil] at hlength
    exact absurd hlength (Nat.pos_iff_ne_zero.mp (Nat.two_pow_pos _)).symm
  exact ⟨a, ha, mem_assignments.mp (List.mem_of_mem_head? ha)⟩

private theorem compareLex_zip {vs : List Variable} {row row' : List Bool}
    (h : row.length = vs.length) (h' : row'.length = vs.length) :
    (vs.zip row).compareLex Assignment.comparePairs (vs.zip row') =
      row.compareLex compareValues row' := by
  induction vs generalizing row row' with
  | nil =>
    rw [List.length_eq_zero_iff.mp h, List.length_eq_zero_iff.mp h']
    rfl
  | cons v vs ih =>
    obtain ⟨value, values, rfl⟩ := List.exists_cons_of_length_eq_add_one h
    obtain ⟨value', values', rfl⟩ := List.exists_cons_of_length_eq_add_one h'
    have hpairs : Assignment.comparePairs (v, value) (v, value') = compareValues value value' :=
      Assignment.comparePairs_value v value value'
    rw [List.zip_cons_cons, List.zip_cons_cons, List.compareLex_cons_cons,
      List.compareLex_cons_cons, hpairs, ih (Nat.succ.inj h) (Nat.succ.inj h')]

/-- The assignments over a vocabulary are listed in ascending order. -/
theorem assignments_ascending (v : Vocabulary) : Ascending compare v.assignments := by
  refine List.pairwise_map.mpr ((truthRows_ascending v.size).imp_of_mem fun hr hr' hlt ↦ ?_)
  rw [Assignment.compare_pairs]
  exact (compareLex_zip (mem_truthRows.mp hr) (mem_truthRows.mp hr')).trans hlt

/-- Some assignment over the vocabulary makes exactly the given variables of it true. -/
theorem exists_isTrue_iff (vocabulary : Vocabulary) (p : Variable → Prop) :
    ∃ a ∈ vocabulary.assignments, ∀ v ∈ vocabulary, (a.IsTrue v ↔ p v) := by
  classical
  have hlength : (vocabulary.toList.map fun v ↦ decide (p v)).length = vocabulary.size :=
    List.length_map _
  refine ⟨vocabulary.assignRow (vocabulary.toList.map fun v ↦ decide (p v)), ?_, ?_⟩
  · rw [mem_assignments, domain_assignRow hlength]
  · intro v hv
    have hpairs : (vocabulary.assignRow (vocabulary.toList.map fun v ↦ decide (p v))).pairs =
        vocabulary.toList.map fun v ↦ (v, decide (p v)) := List.map_prod_left_eq_zip.symm
    rw [Assignment.IsTrue, Assignment.get?_eq_some_iff, hpairs, List.mem_map]
    constructor
    · rintro ⟨w, -, he⟩
      obtain ⟨rfl, hw⟩ := Prod.mk.inj he
      exact of_decide_eq_true hw
    · intro hp
      exact ⟨v, hv, by rw [decide_eq_true hp]⟩

end Vocabulary

end Sentential

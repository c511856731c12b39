import Mathlib.Algebra.BigOperators.Group.Finset.Basic
import Mathlib.Data.Finset.Prod
import Sentential.Proofs.Assignment.Overlay
import Sentential.Proofs.Assignment.Restriction
import Sentential.Proofs.SortedSet

/-!
# Assignments over a union

The assignments over the union of two vocabularies are the overlays of an assignment over the one
and an assignment over the other. An overlay shows all of the second assignment, but of the first
only the values of the variables that the second does not have. So the values that the first gives
to common variables are free, and each overlay comes about as often as there are ways to give them.
-/

namespace Sentential

namespace Assignment

variable {a b u : Assignment} {v w : Vocabulary}

/-- An overlay is known by its second assignment and by the first one on the other variables. -/
theorem overlay_eq_iff (ha : a.domain = v) (hb : b.domain = w) (hu : u.domain = v ∪ w) :
    a.overlay b = u ↔ a.restrict (v \ w) = u.restrict (v \ w) ∧ b = u.restrict w := by
  constructor
  · rintro rfl
    refine ⟨ext fun x ↦ ?_, ext fun x ↦ ?_⟩
    · rw [get?_restrict, get?_restrict]
      split
      · next hx =>
        rw [get?_overlay_of_not_mem (hb ▸ (SortedSet.mem_sdiff.mp hx).2)]
      · rfl
    · rw [get?_restrict]
      split
      · next hx => rw [get?_overlay_of_mem (hb ▸ hx)]
      · next hx => exact get?_eq_none_iff.mpr (hb ▸ hx)
  · rintro ⟨hfirst, hsecond⟩
    refine ext fun x ↦ ?_
    by_cases hw : x ∈ w
    · rw [get?_overlay_of_mem (hb ▸ hw), hsecond, get?_restrict, if_pos hw]
    · rw [get?_overlay_of_not_mem (hb ▸ hw)]
      by_cases hv : x ∈ v
      · have hx := congrArg (fun c ↦ c.get? x) hfirst
        rwa [get?_restrict, get?_restrict, if_pos (SortedSet.mem_sdiff.mpr ⟨hv, hw⟩),
          if_pos (SortedSet.mem_sdiff.mpr ⟨hv, hw⟩)] at hx
      · have hout : x ∉ u.domain := by simp [hu, hv, hw]
        rw [get?_eq_none_iff.mpr (ha ▸ hv), get?_eq_none_iff.mpr hout]

/-- An assignment over a union is the overlay of its restrictions. -/
theorem restrict_overlay_restrict (hu : u.domain = v ∪ w) :
    (u.restrict v).overlay (u.restrict w) = u := by
  have hv : (u.restrict v).domain = v := domain_restrict (hu ▸ SortedSet.subset_union_left)
  have hw : (u.restrict w).domain = w := domain_restrict (hu ▸ SortedSet.subset_union_right)
  refine (overlay_eq_iff hv hw hu).mpr ⟨ext fun x ↦ ?_, rfl⟩
  simp only [get?_restrict]
  by_cases hx : x ∈ v \ w
  · rw [if_pos hx, if_pos hx, if_pos (SortedSet.sdiff_subset x hx)]
  · rw [if_neg hx, if_neg hx]

end Assignment

namespace Vocabulary

open Assignment

variable {v w : Vocabulary} {u : Assignment}

/-- The assignments over a union are the overlays of assignments over its parts. -/
theorem mem_assignments_union :
    u ∈ (v ∪ w).assignments ↔ ∃ a ∈ v.assignments, ∃ b ∈ w.assignments, a.overlay b = u := by
  simp only [mem_assignments]
  constructor
  · intro hu
    exact ⟨u.restrict v, domain_restrict (hu ▸ SortedSet.subset_union_left), u.restrict w,
      domain_restrict (hu ▸ SortedSet.subset_union_right), restrict_overlay_restrict hu⟩
  · rintro ⟨a, rfl, b, rfl, rfl⟩
    exact domain_overlay a b

/-- The set of these overlays is listed as the assignments over the union are. -/
theorem assignments_union_eq (v w : Vocabulary) : (v ∪ w).assignments =
    (SortedSet.ofList (v.assignments.flatMap fun a ↦ w.assignments.map a.overlay)).toList := by
  refine Ascending.eq_of_mem_iff (v ∪ w).assignments_ascending (SortedSet.ascending _) fun u ↦ ?_
  rw [mem_assignments_union, SortedSet.mem_toList, SortedSet.mem_ofList]
  simp only [List.mem_flatMap, List.mem_map]

/-- The pairs of an assignment over the one and an assignment over the other vocabulary. -/
def assignmentPairs (v w : Vocabulary) : Finset (Assignment × Assignment) :=
  v.assignments.toFinset ×ˢ w.assignments.toFinset

/-- There are as many pairs as assignments over the one times assignments over the other. -/
theorem card_assignmentPairs (v w : Vocabulary) :
    (assignmentPairs v w).card = 2 ^ v.size * 2 ^ w.size := by
  rw [assignmentPairs, Finset.card_product,
    List.toFinset_card_of_nodup v.assignments_ascending.nodup,
    List.toFinset_card_of_nodup w.assignments_ascending.nodup, length_assignments,
    length_assignments]

/-- Of the variables of one vocabulary, those are outside of its difference to another that both
have in common. -/
theorem countOutside_sdiff (v w : Vocabulary) : v.countOutside (v \ w) = (v ∩ w).size := by
  have hcommon : (v ∩ w).size = v.toList.countP fun x ↦ w.contains x :=
    List.countP_eq_length_filter.symm
  rw [hcommon, countOutside]
  refine List.countP_congr fun x hx ↦ ?_
  rw [Bool.not_eq_true', Bool.eq_false_iff, ne_eq, SortedSet.contains_iff, SortedSet.mem_sdiff,
    SortedSet.contains_iff, not_and, Classical.not_not]
  exact ⟨fun h ↦ h hx, fun h _ ↦ h⟩

/-- As many assignments have a given restriction to a part of their variables as there are ways to
give values to the others. -/
theorem card_restrict_eq {part : Vocabulary} (h : part ⊆ v) (hu : part ⊆ u.domain) :
    (v.assignments.toFinset.filter fun a ↦ a.restrict part = u.restrict part).card =
      2 ^ v.countOutside part := by
  have hmem : u.restrict part ∈ part.assignments := mem_assignments.mpr (domain_restrict hu)
  have hone : part.assignments.countP (fun a ↦ decide (a = u.restrict part)) = 1 :=
    List.count_eq_one_of_mem part.assignments_ascending.nodup hmem
  have hcount := countP_restrict h fun a ↦ decide (a = u.restrict part)
  rw [hone, Nat.mul_one, List.countP_eq_length_filter] at hcount
  rw [← hcount, ← List.toFinset_card_of_nodup (v.assignments_ascending.nodup.filter _),
    List.toFinset_filter]
  simp only [decide_eq_true_eq]

/-- Each assignment over a union is the overlay of as many pairs as there are ways to give values to
the common variables. -/
theorem card_overlay_eq (hu : u ∈ (v ∪ w).assignments) :
    ((assignmentPairs v w).filter fun p ↦ p.1.overlay p.2 = u).card = 2 ^ (v ∩ w).size := by
  have hdomain : u.domain = v ∪ w := mem_assignments.mp hu
  have hv : v \ w ⊆ u.domain := fun x hx ↦
    hdomain ▸ SortedSet.subset_union_left x (SortedSet.sdiff_subset x hx)
  have hw : u.restrict w ∈ w.assignments.toFinset := by
    rw [List.mem_toFinset, mem_assignments]
    exact domain_restrict (hdomain ▸ SortedSet.subset_union_right)
  -- The first assignment is settled outside of the common variables, the second everywhere.
  have hpairs : ((assignmentPairs v w).filter fun p ↦ p.1.overlay p.2 = u) =
      (v.assignments.toFinset.filter fun a ↦ a.restrict (v \ w) = u.restrict (v \ w)) ×ˢ
        w.assignments.toFinset.filter fun b ↦ b = u.restrict w := by
    rw [← Finset.filter_product]
    refine Finset.filter_congr fun p hp ↦ ?_
    obtain ⟨ha, hb⟩ := Finset.mem_product.mp hp
    rw [List.mem_toFinset, mem_assignments] at ha hb
    exact overlay_eq_iff ha hb hdomain
  rw [hpairs, Finset.card_product, card_restrict_eq SortedSet.sdiff_subset hv, countOutside_sdiff,
    Finset.filter_eq', if_pos hw, Finset.card_singleton, Nat.mul_one]

/-- All pairs are counted when the assignments over the union are, each as often as it comes
about. -/
theorem length_assignments_union_mul (v w : Vocabulary) :
    (v ∪ w).assignments.length * 2 ^ (v ∩ w).size = 2 ^ v.size * 2 ^ w.size := by
  have hmaps : Set.MapsTo (fun p : Assignment × Assignment ↦ p.1.overlay p.2)
      (assignmentPairs v w) (v ∪ w).assignments.toFinset := by
    intro p hp
    obtain ⟨ha, hb⟩ := Finset.mem_product.mp (Finset.mem_coe.mp hp)
    exact List.mem_toFinset.mpr (mem_assignments_union.mpr
      ⟨p.1, List.mem_toFinset.mp ha, p.2, List.mem_toFinset.mp hb, rfl⟩)
  rw [← card_assignmentPairs, Finset.card_eq_sum_card_fiberwise hmaps,
    Finset.sum_const_nat fun u hu ↦ card_overlay_eq (List.mem_toFinset.mp hu),
    List.toFinset_card_of_nodup (v ∪ w).assignments_ascending.nodup]

/-- The assignments over a union, however the variables of the two vocabularies overlap and
interleave, are the overlays of an assignment over the one and an assignment over the other. The
union is the sum of the vocabularies, and it is listed as the merge of their lists. Each assignment
over it is the overlay of exactly `2 ^ k` pairs, where `k` is the number of common variables, so
there are `2 ^ k` times as many pairs as assignments over the union. -/
theorem assignments_union (v w : Vocabulary) :
    (v ∪ w).assignments =
      (SortedSet.ofList (v.assignments.flatMap fun a ↦ w.assignments.map a.overlay)).toList ∧
    (∀ u, u ∈ (v ∪ w).assignments ↔
      ∃ a ∈ v.assignments, ∃ b ∈ w.assignments, a.overlay b = u) ∧
    v ∪ w = v + w ∧
    (v ∪ w).toList = Ascending.merge compare v.toList w.toList ∧
    (∀ u ∈ (v ∪ w).assignments,
      ((assignmentPairs v w).filter fun p ↦ p.1.overlay p.2 = u).card = 2 ^ (v ∩ w).size) ∧
    (v ∪ w).assignments.length * 2 ^ (v ∩ w).size = 2 ^ v.size * 2 ^ w.size :=
  ⟨assignments_union_eq v w, fun _ ↦ mem_assignments_union, rfl, SortedSet.toList_union v w,
    fun _ ↦ card_overlay_eq, length_assignments_union_mul v w⟩

private def outside : Vocabulary :=
  SortedSet.ofList [⟨"west", by decide⟩, ⟨"east", by decide⟩, ⟨"south", by decide⟩]

private def between : Vocabulary := SortedSet.ofList [⟨"south", by decide⟩, ⟨"north", by decide⟩]

private def row : Assignment := (outside ∪ between).assignRow [true, false, false, true]

/-- Of two interleaving vocabularies with one common variable, an assignment over the union is the
overlay of two pairs, and there are sixteen assignments for thirty-two pairs. -/
theorem assignments_union_interleaved :
    row ∈ (outside ∪ between).assignments ∧
    ((assignmentPairs outside between).filter fun p ↦ p.1.overlay p.2 = row).card = 2 ∧
    (outside ∪ between).assignments.length * 2 = 8 * 4 := by
  have hrow : row ∈ (outside ∪ between).assignments := mem_assignments.mpr (by decide)
  obtain ⟨-, -, -, -, hpairs, hcount⟩ := assignments_union outside between
  exact ⟨hrow, hpairs row hrow, hcount⟩

end Vocabulary

end Sentential

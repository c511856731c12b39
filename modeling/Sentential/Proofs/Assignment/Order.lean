import Sentential.Assignment
import Sentential.Proofs.Lexicographic

/-!
# The order of assignments

Assignments over any variables are in a strict total order, in which only assignments of the same
values to the same variables compare as equal. Over one vocabulary it is settled by the first
variable to which two assignments give different values.
-/

namespace Sentential

namespace Assignment

variable {a b : Assignment} {v w : Variable}

/-- The assignments give the same to all variables before this one, and do not give the same to
it. -/
def DifferFirstAt (a b : Assignment) (v : Variable) : Prop :=
  a.get? v ≠ b.get? v ∧ ∀ w, compare w v = .lt → a.get? w = b.get? w

/-- The first difference does not depend on which assignment is named first. -/
theorem DifferFirstAt.symm (h : DifferFirstAt a b v) : DifferFirstAt b a v :=
  ⟨h.1.symm, fun w hw ↦ (h.2 w hw).symm⟩

/-- There is only one first difference. -/
theorem DifferFirstAt.unique (hv : DifferFirstAt a b v) (hw : DifferFirstAt a b w) : v = w := by
  cases h : compare v w with
  | lt => exact absurd (hw.2 v h) hv.1
  | eq => exact Std.LawfulEqOrd.eq_of_compare h
  | gt => exact absurd (hv.2 w (Std.OrientedCmp.lt_of_gt h)) hw.1

/-- One assignment is less than another when it compares as such. -/
theorem lt_iff_compare : a < b ↔ compare a b = .lt := Option.some_inj

/-- One assignment is at most another when it does not compare as greater. -/
theorem le_iff_compare : a ≤ b ↔ compare a b ≠ .gt := by
  change some (compare a b) = some .lt ∨ some (compare a b) = some .eq ↔ _
  cases compare a b <;> simp

/-- The variables before that of a listed pair have their values in the pairs before it. -/
theorem mem_pairs_iff_of_lt {common rest : List (Variable × Bool)} {x : Variable × Bool}
    (h : a.pairs = common ++ x :: rest) (hw : compare w x.1 = .lt) (value : Bool) :
    (w, value) ∈ a.pairs ↔ (w, value) ∈ common := by
  have hascending := a.ascending
  rw [h, Ascending, List.pairwise_append] at hascending
  obtain ⟨hx, -⟩ := List.pairwise_cons.mp hascending.2.1
  rw [h, List.mem_append]
  refine or_iff_left fun hm ↦ ?_
  rcases List.mem_cons.mp hm with rfl | hm
  · simp [Std.ReflCmp.compare_self] at hw
  · have hlater : compare x.1 w = .lt := hx (w, value) hm
    rw [Std.OrientedCmp.gt_of_lt hlater] at hw
    cases hw

/-- Of two assignments to the same variables, the one that comes before the other makes the first
variable true at which they differ. -/
theorem exists_differFirstAt (hd : a.domain = b.domain) (h : compare a b = .lt) :
    ∃ v, DifferFirstAt a b v ∧ a.get? v = some true := by
  have hvariables : a.pairs.map Prod.fst = b.pairs.map Prod.fst := congrArg SortedSet.toList hd
  rw [compare_pairs] at h
  rcases exists_of_compareLex_eq_lt h with
    ⟨y, rest, hb⟩ | ⟨common, ⟨v, x⟩, ⟨v', y⟩, rest, rest', ha, hb, hxy⟩
  · -- A proper beginning has fewer variables.
    have hlength := congrArg List.length hvariables
    simp [hb] at hlength
  · rw [ha, hb, List.map_append, List.map_append, List.append_cancel_left_eq, List.map_cons,
      List.map_cons, List.cons.injEq] at hvariables
    obtain rfl : v = v' := hvariables.1
    obtain ⟨rfl, rfl⟩ : x = true ∧ y = false := by
      rw [comparePairs_value] at hxy
      revert hxy
      cases x <;> cases y <;> decide
    have hav : a.get? v = some true := get?_eq_some_iff.mpr (by simp [ha])
    have hbv : b.get? v = some false := get?_eq_some_iff.mpr (by simp [hb])
    refine ⟨v, ⟨by simp [hav, hbv], fun w hw ↦ Option.ext fun value ↦ ?_⟩, hav⟩
    rw [get?_eq_some_iff, get?_eq_some_iff, mem_pairs_iff_of_lt ha hw, mem_pairs_iff_of_lt hb hw]

/-- Over one vocabulary an assignment comes before another exactly if it makes the first variable
true at which they differ. -/
theorem lt_iff_of_domain_eq (hd : a.domain = b.domain) :
    a < b ↔ ∃ v, DifferFirstAt a b v ∧ a.get? v = some true := by
  rw [lt_iff_compare]
  refine ⟨exists_differFirstAt hd, ?_⟩
  rintro ⟨v, hv, ha⟩
  cases h : compare a b with
  | lt => rfl
  | eq =>
    obtain rfl : a = b := Std.LawfulEqOrd.eq_of_compare h
    exact absurd rfl hv.1
  | gt =>
    -- Otherwise the other one would be true at the first difference, which is the same.
    obtain ⟨w, hw, hb⟩ := exists_differFirstAt hd.symm (Std.OrientedCmp.lt_of_gt h)
    obtain rfl : v = w := hv.unique hw.symm
    exact absurd (ha.trans hb.symm) hv.1

/-- An assignment comes before those that continue its pairs. -/
theorem lt_of_isPrefix (h : a.pairs <+: b.pairs) (hne : a.pairs ≠ b.pairs) : a < b := by
  obtain ⟨rest, hb⟩ := h
  rw [lt_iff_compare, compare_pairs, ← hb]
  cases rest with
  | nil => exact absurd ((List.append_nil _).symm.trans hb) hne
  | cons y rest => exact compareLex_append_cons a.pairs y rest

/-- Comparing is transitive, whatever the result is. -/
theorem compare_trans {c : Assignment} {o : Ordering} (hab : compare a b = o)
    (hbc : compare b c = o) : compare a c = o := by
  cases o with
  | lt => exact Std.TransCmp.lt_trans hab hbc
  | eq => exact Std.TransCmp.eq_trans hab hbc
  | gt => exact Std.TransCmp.gt_trans hab hbc

/-- Assignments compare as equal exactly if they give the same values to the same variables. -/
theorem compare_eq_iff : compare a b = .eq ↔ ∀ v, a.get? v = b.get? v := by
  rw [Std.LawfulEqOrd.compare_eq_iff_eq]
  constructor
  · rintro rfl v
    rfl
  · exact Assignment.ext

/-- Assignments, whatever variables they give values to, are in a strict total order: comparing them
the other way round gives the opposite, it is transitive, and it gives equality exactly for the same
values of the same variables. The partial comparison is the same one. An assignment comes before
those whose pairs properly continue its own. Of two over the same vocabulary, the one comes first
that makes the first variable true at which they differ. -/
theorem order_by_pairs :
    IsStrictTotalOrder Assignment (fun a b ↦ a < b) ∧
    (∀ a b : Assignment, compare a b = (compare b a).swap) ∧
    (∀ (a b c : Assignment) (o : Ordering), compare a b = o → compare b c = o →
      compare a c = o) ∧
    (∀ a b : Assignment, compare a b = .eq ↔ ∀ v, a.get? v = b.get? v) ∧
    (∀ a b : Assignment, a.compare? b = some (compare a b) ∧
      (a < b ↔ compare a b = .lt) ∧ (a ≤ b ↔ compare a b ≠ .gt)) ∧
    (∀ a b : Assignment, a.pairs <+: b.pairs → a.pairs ≠ b.pairs → a < b) ∧
    ∀ a b : Assignment, a.domain = b.domain →
      (a < b ↔ ∃ v, DifferFirstAt a b v ∧ a.get? v = some true) := by
  refine ⟨?_, fun a b ↦ Std.OrientedCmp.eq_swap, fun a b c o ↦ compare_trans,
    fun a b ↦ compare_eq_iff, fun a b ↦ ⟨rfl, lt_iff_compare, le_iff_compare⟩,
    fun a b ↦ lt_of_isPrefix, fun a b ↦ lt_iff_of_domain_eq⟩
  simp only [lt_iff_compare]
  exact isStrictTotalOrder_compare

private def short : Assignment := ofList [(⟨"c", by decide⟩, true)]

private def long : Assignment := ofList [(⟨"o", by decide⟩, false), (⟨"c", by decide⟩, true)]

private def between : Assignment := ofList [(⟨"d", by decide⟩, true)]

private def brighter : Assignment := ofList [(⟨"c", by decide⟩, true), (⟨"o", by decide⟩, true)]

/-- Three assignments to different variables come one after another, the first as a beginning of the
second; and of two to the same variables, the one that is true at their difference comes first. -/
theorem order_by_pairs_across_domains :
    short.pairs <+: long.pairs ∧ short.pairs ≠ long.pairs ∧ short < long ∧
    compare long between = .lt ∧ compare short between = .lt ∧
    brighter.domain = long.domain ∧ brighter < long ∧
    ∃ v, DifferFirstAt brighter long v ∧ brighter.get? v = some true := by
  obtain ⟨-, -, htrans, -, hpartial, hbeginning, hdomain⟩ := order_by_pairs
  have hbegins : short.pairs <+: long.pairs := by decide
  have hproper : short.pairs ≠ long.pairs := by decide
  have hshort : short < long := hbeginning short long hbegins hproper
  have hlong : compare long between = .lt := rfl
  have hsame : brighter.domain = long.domain := by decide
  have hbrighter : brighter < long := rfl
  exact ⟨hbegins, hproper, hshort, hlong,
    htrans _ _ _ _ ((hpartial _ _).2.1.mp hshort) hlong, hsame, hbrighter,
    (hdomain _ _ hsame).mp hbrighter⟩

end Assignment

end Sentential

import Sentential.SortedSet

/-!
# Operations on sorted sets

The union of two sorted sets is read off both lists at once, as their merge. Intersections and
differences keep some members of the first set.
-/

namespace Sentential

universe u

variable {α : Type u}

namespace Ascending

/-- Both lists as one, the lesser of their first elements always first; of two first elements of the
same rank only that of the first list is kept. -/
def merge (cmp : α → α → Ordering) : List α → List α → List α
  | [], ys => ys
  | xs, [] => xs
  | x :: xs, y :: ys =>
    match cmp x y with
    | .lt => x :: merge cmp xs (y :: ys)
    | .eq => x :: merge cmp xs ys
    | .gt => y :: merge cmp (x :: xs) ys
termination_by xs ys => xs.length + ys.length

variable {cmp : α → α → Ordering}

/-- The merge has the elements of both lists. -/
theorem mem_merge [Std.LawfulEqCmp cmp] {xs ys : List α} {z : α} :
    z ∈ merge cmp xs ys ↔ z ∈ xs ∨ z ∈ ys := by
  fun_induction merge cmp xs ys with
  | case1 ys => simp
  | case2 xs => simp
  | case3 x xs y ys _ ih => simp only [List.mem_cons, ih, or_assoc]
  | case4 x xs y ys hxy ih =>
    obtain rfl : x = y := Std.LawfulEqCmp.eq_of_compare hxy
    simp only [List.mem_cons, ih]
    grind
  | case5 x xs y ys _ ih =>
    simp only [List.mem_cons, ih]
    grind

/-- The merge of ascending lists is ascending. -/
theorem merge_ascending [Std.TransCmp cmp] [Std.LawfulEqCmp cmp] {xs ys : List α}
    (hx : Ascending cmp xs) (hy : Ascending cmp ys) : Ascending cmp (merge cmp xs ys) := by
  fun_induction merge cmp xs ys with
  | case1 ys => exact hy
  | case2 xs => exact hx
  | case3 x xs y ys hxy ih =>
    obtain ⟨hxs, hx'⟩ := List.pairwise_cons.mp hx
    refine List.pairwise_cons.mpr ⟨fun z hz ↦ ?_, ih hx' hy⟩
    rcases mem_merge.mp hz with hz | hz
    · exact hxs z hz
    · exact lt_of_mem_cons hxy hy hz
  | case4 x xs y ys hxy ih =>
    obtain ⟨hxs, hx'⟩ := List.pairwise_cons.mp hx
    obtain ⟨hys, hy'⟩ := List.pairwise_cons.mp hy
    refine List.pairwise_cons.mpr ⟨fun z hz ↦ ?_, ih hx' hy'⟩
    rcases mem_merge.mp hz with hz | hz
    · exact hxs z hz
    · exact Std.TransCmp.lt_of_eq_of_lt hxy (hys z hz)
  | case5 x xs y ys hxy ih =>
    obtain ⟨hys, hy'⟩ := List.pairwise_cons.mp hy
    refine List.pairwise_cons.mpr ⟨fun z hz ↦ ?_, ih hx hy'⟩
    rcases mem_merge.mp hz with hz | hz
    · exact lt_of_mem_cons (Std.OrientedCmp.lt_of_gt hxy) hx hz
    · exact hys z hz

end Ascending

namespace SortedSet

variable [Ord α]

/-- The union is listed as the merge of the two lists. -/
theorem toList_union [Std.TransOrd α] [Std.LawfulEqOrd α] (s t : SortedSet α) :
    (s ∪ t).toList = Ascending.merge compare s.toList t.toList := by
  refine Ascending.eq_of_mem_iff (s ∪ t).ascending
    (Ascending.merge_ascending s.ascending t.ascending) fun x ↦ ?_
  rw [mem_toList, mem_union, Ascending.mem_merge, mem_toList, mem_toList]

variable [DecidableEq α] {s t : SortedSet α} {x : α}

/-- The set of the members of both sets. -/
instance : Inter (SortedSet α) where
  inter s t := ⟨s.toList.filter fun x ↦ t.contains x, s.ascending.filter _⟩

/-- The set of the members of the first set that are not in the second. -/
instance : SDiff (SortedSet α) where
  sdiff s t := ⟨s.toList.filter fun x ↦ !t.contains x, s.ascending.filter _⟩

/-- The intersection has the members of both sets. -/
@[simp] theorem mem_inter : x ∈ s ∩ t ↔ x ∈ s ∧ x ∈ t := by
  rw [← mem_toList]
  simp only [Inter.inter, List.mem_filter, contains_iff, mem_toList]

/-- The difference has the members of the first set that are not in the second. -/
@[simp] theorem mem_sdiff : x ∈ s \ t ↔ x ∈ s ∧ x ∉ t := by
  rw [← mem_toList]
  simp only [SDiff.sdiff, List.mem_filter, Bool.not_eq_true', Bool.eq_false_iff, ne_eq,
    contains_iff, mem_toList]

/-- A difference is a part of its first set. -/
theorem sdiff_subset : s \ t ⊆ s := fun _ hx ↦ (mem_sdiff.mp hx).1

end SortedSet

end Sentential

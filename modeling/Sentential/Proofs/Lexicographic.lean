import Mathlib.Order.Defs.Unbundled

/-!
# Lexicographic order

Lists are compared at the first place where they differ. One of two lists comes before the other if
it is a proper beginning of it, or if its element at that place comes first.
-/

namespace Sentential

/-- Coming before is a strict total order, where only equal values compare as equal. -/
theorem isStrictTotalOrder_compare {α : Type} [Ord α] [Std.TransOrd α] [Std.LawfulEqOrd α] :
    IsStrictTotalOrder α fun x y ↦ compare x y = .lt where
  irrefl x := by simp [Std.ReflCmp.compare_self]
  trans x y z := Std.TransCmp.lt_trans
  trichotomous x y hxy hyx := by
    cases h : compare x y with
    | lt => exact absurd h hxy
    | eq => exact Std.LawfulEqOrd.eq_of_compare h
    | gt => exact absurd (Std.OrientedCmp.lt_of_gt h) hyx

variable {α : Type} {cmp : α → α → Ordering}

/-- What two lists begin with in common does not matter. -/
theorem compareLex_append_append [Std.ReflCmp cmp] (common xs ys : List α) :
    (common ++ xs).compareLex cmp (common ++ ys) = xs.compareLex cmp ys := by
  induction common with
  | nil => rfl
  | cons z common ih =>
    have hself : cmp z z = .eq := Std.ReflCmp.compare_self
    rw [List.cons_append, List.cons_append, List.compareLex_cons_cons, hself, ih]
    rfl

/-- A list comes before all that it is a proper beginning of. -/
theorem compareLex_append_cons [Std.ReflCmp cmp] (xs : List α) (y : α) (rest : List α) :
    xs.compareLex cmp (xs ++ y :: rest) = .lt := by
  have h : (xs ++ []).compareLex cmp (xs ++ y :: rest) = .lt :=
    compareLex_append_append xs [] (y :: rest)
  rwa [List.append_nil] at h

/-- A list that comes before another is a proper beginning of it, or has an element that comes first
where they differ. -/
theorem exists_of_compareLex_eq_lt [Std.LawfulEqCmp cmp] {xs ys : List α}
    (h : xs.compareLex cmp ys = .lt) :
    (∃ y rest, ys = xs ++ y :: rest) ∨
      ∃ common x y rest rest', xs = common ++ x :: rest ∧ ys = common ++ y :: rest' ∧
        cmp x y = .lt := by
  induction xs generalizing ys with
  | nil =>
    cases ys with
    | nil => cases h
    | cons y ys => exact .inl ⟨y, ys, rfl⟩
  | cons x xs ih =>
    cases ys with
    | nil => cases h
    | cons y ys =>
      rw [List.compareLex_cons_cons, Ordering.then_eq_lt] at h
      rcases h with hlt | ⟨heq, hrest⟩
      · exact .inr ⟨[], x, y, xs, ys, rfl, rfl, hlt⟩
      · obtain rfl : x = y := Std.LawfulEqCmp.eq_of_compare heq
        rcases ih hrest with ⟨y, rest, rfl⟩ | ⟨common, z, w, rest, rest', rfl, rfl, hlt⟩
        · exact .inl ⟨y, rest, rfl⟩
        · exact .inr ⟨x :: common, z, w, rest, rest', rfl, rfl, hlt⟩

end Sentential

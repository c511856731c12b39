import Sentential.Proofs.Assignment.Enumeration

/-!
# Restricting assignments

Every assignment over a part of a vocabulary is the restriction of as many assignments over the
whole as there are ways to give values to the other variables, wherever these come in the order.
Selecting assignments over the whole by their restrictions therefore multiplies the number of those
that are selected.
-/

namespace Sentential

namespace Assignment

/-- The assignment of the pairs of an assignment is that assignment. -/
theorem ofList_pairs (a : Assignment) : ofList a.pairs = a := by
  change (∅ : Assignment).overlay a = a
  refine ext fun v ↦ ?_
  rw [get?_overlay, get?_empty, Option.or_none]

/-- The restriction gives values to the variables of the vocabulary that had one. -/
theorem mem_domain_restrict {a : Assignment} {w : Vocabulary} {v : Variable} :
    v ∈ (a.restrict w).domain ↔ v ∈ w ∧ v ∈ a.domain := by
  rw [mem_domain, get?_restrict, mem_domain]
  by_cases h : v ∈ w <;> simp [h]

/-- A restriction to variables that all have values gives values to just these. -/
theorem domain_restrict {a : Assignment} {w : Vocabulary} (h : w ⊆ a.domain) :
    (a.restrict w).domain = w :=
  SortedSet.ext fun v ↦ by rw [mem_domain_restrict, and_iff_left_of_imp (h v)]

/-- The variables of the vocabulary are true in the restriction where they were. -/
theorem isTrue_restrict {a : Assignment} {w : Vocabulary} {v : Variable} (h : v ∈ w) :
    (a.restrict w).IsTrue v ↔ a.IsTrue v := by
  rw [IsTrue, IsTrue, get?_restrict, if_pos h]

end Assignment

namespace Vocabulary

/-- How many variables of a vocabulary are not in another one. -/
def countOutside (u w : Vocabulary) : Nat := u.toList.countP fun v ↦ !w.contains v

/-- The variables of a vocabulary that are in a part of it are those of the part. -/
theorem filter_contains {u w : Vocabulary} (h : w ⊆ u) :
    u.toList.filter (fun v ↦ w.contains v) = w.toList := by
  refine Ascending.eq_of_mem_iff (u.ascending.filter _) w.ascending fun v ↦ ?_
  rw [List.mem_filter, SortedSet.contains_iff, SortedSet.mem_toList, SortedSet.mem_toList,
    and_iff_right_of_imp (h v)]

/-- The first value of a row is true in half of the rows and false in the other half. -/
theorem countP_truthRows_succ (n : Nat) (p : List Bool → Bool) :
    (truthRows (n + 1)).countP p = ((truthRows n).countP fun row ↦ p (true :: row)) +
      (truthRows n).countP fun row ↦ p (false :: row) := by
  rw [truthRows, List.countP_append, List.countP_map, List.countP_map]
  rfl

/-- Among all rows, each selection of values for the variables that are kept comes as often as there
are rows for the others. -/
theorem countP_zip_truthRows (vs : List Variable) (keep : Variable → Bool)
    (p : List (Variable × Bool) → Bool) :
    ((truthRows vs.length).countP fun row ↦ p ((vs.zip row).filter fun pair ↦ keep pair.1)) =
      2 ^ (vs.countP fun v ↦ !keep v) *
        (truthRows (vs.filter keep).length).countP fun row ↦ p ((vs.filter keep).zip row) := by
  induction vs generalizing p with
  | nil => simp
  | cons v vs ih =>
    simp only [List.length_cons, countP_truthRows_succ, List.zip_cons_cons]
    cases hv : keep v with
    | true =>
      -- The value of a kept variable is looked at, so it becomes part of the property.
      have hpair (value : Bool) (row : List Bool) :
          ((v, value) :: vs.zip row).filter (fun pair ↦ keep pair.1) =
            (v, value) :: (vs.zip row).filter fun pair ↦ keep pair.1 :=
        List.filter_cons_of_pos hv
      simp only [hpair, ih fun pairs ↦ p ((v, true) :: pairs),
        ih fun pairs ↦ p ((v, false) :: pairs)]
      rw [List.filter_cons_of_pos hv, List.countP_cons_of_neg (by simp [hv]), List.length_cons,
        countP_truthRows_succ, Nat.mul_add]
      rfl
    | false =>
      -- The value of any other variable is not, so both halves of the rows count the same.
      have hpair (value : Bool) (row : List Bool) :
          ((v, value) :: vs.zip row).filter (fun pair ↦ keep pair.1) =
            (vs.zip row).filter fun pair ↦ keep pair.1 :=
        List.filter_cons_of_neg (by simp [hv])
      simp only [hpair, ih p]
      rw [List.filter_cons_of_neg (by simp [hv]), List.countP_cons_of_pos (by simp [hv]),
        ← Nat.two_mul, ← Nat.mul_assoc, Nat.pow_succ']

/-- As many assignments over the whole have a restriction with a property as there are assignments
over the part with it, times two for each variable that is not in the part. -/
theorem countP_restrict {u w : Vocabulary} (h : w ⊆ u) (p : Assignment → Bool) :
    (u.assignments.countP fun a ↦ p (a.restrict w)) =
      2 ^ u.countOutside w * w.assignments.countP p := by
  have hcount := countP_zip_truthRows u.toList (fun v ↦ w.contains v)
    fun pairs ↦ p (Assignment.ofList pairs)
  rw [filter_contains h] at hcount
  have hwhole (row : List Bool) : Assignment.ofList
      ((u.toList.zip row).filter fun pair ↦ w.contains pair.1) = (u.assignRow row).restrict w :=
    Assignment.ofList_pairs ((u.assignRow row).restrict w)
  have hpart (row : List Bool) : Assignment.ofList (w.toList.zip row) = w.assignRow row :=
    Assignment.ofList_pairs (w.assignRow row)
  simp only [hwhole, hpart] at hcount
  rw [assignments, assignments, List.countP_map, List.countP_map]
  exact hcount

/-- Some assignments over a vocabulary, as the ones whose restrictions are among some assignments
over a part of it. -/
structure AreExtensions (u w : Vocabulary) (wide narrow : List Assignment) : Prop where
  mem_iff : ∀ a, a ∈ wide ↔ a.domain = u ∧ a.restrict w ∈ narrow
  wide_ascending : Ascending compare wide
  narrow_ascending : Ascending compare narrow
  length_eq : wide.length = 2 ^ u.countOutside w * narrow.length

/-- Selecting by a property that depends on the part only selects the extensions of what it selects
there. -/
theorem areExtensions_filter {u w : Vocabulary} (h : w ⊆ u) {p : Assignment → Bool}
    (hp : ∀ a : Assignment, p (a.restrict w) = p a) :
    AreExtensions u w (u.assignments.filter p) (w.assignments.filter p) where
  mem_iff a := by
    rw [List.mem_filter, List.mem_filter, mem_assignments, mem_assignments, hp]
    apply and_congr_right
    rintro rfl
    rw [and_iff_right (Assignment.domain_restrict h)]
  wide_ascending := u.assignments_ascending.filter _
  narrow_ascending := w.assignments_ascending.filter _
  length_eq := by
    rw [← List.countP_eq_length_filter, ← List.countP_eq_length_filter, ← countP_restrict h]
    simp only [hp]

end Vocabulary

end Sentential

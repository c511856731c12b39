import Mathlib.Data.Nat.Bitwise
import Sentential.Proofs.Assignment.Restriction

/-!
# Counting in binary

The assignments over a vocabulary can be built from the empty one, by giving both values to one
variable after another, and they are listed as the binary numbers with a digit for each variable
are: a digit 0 stands for true, and the digit of the first variable is the highest.
-/

namespace Sentential

/-! ### Rows as numbers -/

/-- The lowest `n` binary digits of a number, the highest of them first; 0 stands for true. -/
def binaryRow : Nat → Nat → List Bool
  | 0, _ => []
  | n + 1, i => (!i.testBit n) :: binaryRow n i

/-- A row has as many values as digits were asked for. -/
@[simp] theorem length_binaryRow (n i : Nat) : (binaryRow n i).length = n := by
  induction n with
  | zero => rfl
  | succ n ih => rw [binaryRow, List.length_cons, ih]

/-- The values stand for the digits from the highest to the lowest. -/
theorem getElem?_binaryRow {n k : Nat} (hk : k < n) (i : Nat) :
    (binaryRow n i)[k]? = some (!i.testBit (n - 1 - k)) := by
  induction n generalizing k with
  | zero => exact absurd hk (Nat.not_lt_zero k)
  | succ n ih =>
    cases k with
    | zero => rfl
    | succ k =>
      rw [binaryRow, List.getElem?_cons_succ, ih (Nat.lt_of_succ_lt_succ hk)]
      congr 3
      omega

/-- Higher digits do not matter. -/
theorem binaryRow_two_pow_add {m n : Nat} (h : n ≤ m) (i : Nat) :
    binaryRow n (2 ^ m + i) = binaryRow n i := by
  induction n with
  | zero => rfl
  | succ n ih =>
    rw [binaryRow, binaryRow, ih (Nat.le_of_succ_le h), Nat.testBit_two_pow_add_gt h]

/-- The rows of length `n` are listed as the numbers below `2 ^ n`. -/
theorem truthRows_eq_map_range (n : Nat) :
    truthRows n = (List.range (2 ^ n)).map (binaryRow n) := by
  induction n with
  | zero => rfl
  | succ n ih =>
    have hlow : (truthRows n).map (true :: ·) = (List.range (2 ^ n)).map (binaryRow (n + 1)) := by
      rw [ih, List.map_map]
      refine List.map_congr_left fun i hi ↦ ?_
      rw [Function.comp_apply, binaryRow, Nat.testBit_lt_two_pow (List.mem_range.mp hi)]
      rfl
    have hhigh : (truthRows n).map (false :: ·) =
        ((List.range (2 ^ n)).map (2 ^ n + ·)).map (binaryRow (n + 1)) := by
      rw [ih, List.map_map, List.map_map]
      refine List.map_congr_left fun i hi ↦ ?_
      rw [Function.comp_apply, Function.comp_apply, binaryRow, Nat.testBit_two_pow_add_eq,
        Nat.testBit_lt_two_pow (List.mem_range.mp hi), binaryRow_two_pow_add (Nat.le_refl n)]
      rfl
    rw [truthRows, hlow, hhigh, ← List.map_append, ← List.range_add, ← Nat.two_mul,
      ← Nat.pow_succ']

/-! ### Growing sets of assignments -/

namespace Assignment

/-- The assignments of a set, each with the one and with the other value for a further
variable. -/
def withBoth (s : SortedSet Assignment) (v : Variable) : SortedSet Assignment :=
  SortedSet.ofList (s.toList.flatMap fun a ↦ [true, false].map fun value ↦ a.setAll [(v, value)])

/-- Setting one variable leaves the others as they were. -/
theorem get?_setAll_singleton (a : Assignment) (v : Variable) (value : Bool) (w : Variable) :
    (a.setAll [(v, value)]).get? w = if w = v then some value else a.get? w := by
  rw [get?_setAll, List.reverse_singleton, List.lookup_cons, List.lookup_nil]
  by_cases h : w = v
  · rw [h, beq_self_eq_true, if_pos rfl]
    rfl
  · rw [beq_false_of_ne h, if_neg h]
    rfl

/-- The members are those of the set with some value for the variable. -/
theorem mem_withBoth {s : SortedSet Assignment} {v : Variable} {a : Assignment} :
    a ∈ withBoth s v ↔ ∃ b ∈ s, ∃ value, a = b.setAll [(v, value)] := by
  simp [withBoth, or_comm]

/-- Setting one variable adds it to the domain. -/
theorem domain_setAll_singleton (a : Assignment) (v : Variable) (value : Bool) :
    (a.setAll [(v, value)]).domain = a.domain ∪ SortedSet.ofList [v] := by
  refine SortedSet.ext fun w ↦ ?_
  rw [mem_domain, get?_setAll_singleton, SortedSet.mem_union, mem_domain, SortedSet.mem_ofList,
    List.mem_singleton]
  by_cases h : w = v <;> simp [h]

/-- An assignment is its restriction to all its variables but one, with the value of that one set
again. -/
theorem setAll_restrict {a : Assignment} {seen : Vocabulary} {v : Variable} {value : Bool}
    (ha : a.domain = seen ∪ SortedSet.ofList [v]) (hv : a.get? v = some value) :
    (a.restrict seen).setAll [(v, value)] = a := by
  refine ext fun w ↦ ?_
  rw [get?_setAll_singleton, get?_restrict]
  by_cases h : w = v
  · rw [h, if_pos rfl, hv]
  · rw [if_neg h]
    by_cases hw : w ∈ seen
    · rw [if_pos hw]
    · have hout : w ∉ a.domain := by simp [ha, hw, h]
      rw [mem_domain, Option.not_isSome_iff_eq_none] at hout
      rw [if_neg hw, hout]

/-- From the assignments over a vocabulary come those over one variable more. -/
theorem mem_withBoth_of_domain {s : SortedSet Assignment} {seen : Vocabulary}
    (hs : ∀ a, a ∈ s ↔ a.domain = seen) {v : Variable} {a : Assignment} :
    a ∈ withBoth s v ↔ a.domain = seen ∪ SortedSet.ofList [v] := by
  rw [mem_withBoth]
  constructor
  · rintro ⟨b, hb, value, rfl⟩
    rw [domain_setAll_singleton, (hs b).mp hb]
  · intro ha
    have hseen : seen ⊆ a.domain := ha ▸ SortedSet.subset_union_left
    have hv : (a.get? v).isSome := by rw [← mem_domain, ha]; simp
    obtain ⟨value, hvalue⟩ := Option.isSome_iff_exists.mp hv
    exact ⟨a.restrict seen, (hs _).mpr (domain_restrict hseen), value,
      (setAll_restrict ha hvalue).symm⟩

end Assignment

namespace Vocabulary

open Assignment

/-- The assignments that come from the empty one when the variables are given both values, one
variable after another. -/
def grown (v : Vocabulary) : SortedSet Assignment :=
  v.toList.foldl withBoth (SortedSet.ofList [∅])

private theorem mem_foldl_withBoth {vs : List Variable} {s : SortedSet Assignment}
    {seen : Vocabulary} (hs : ∀ a, a ∈ s ↔ a.domain = seen) {a : Assignment} :
    a ∈ vs.foldl withBoth s ↔ a.domain = seen ∪ SortedSet.ofList vs := by
  induction vs generalizing s seen with
  | nil =>
    have hseen : seen ∪ SortedSet.ofList [] = seen := SortedSet.ext fun v ↦ by simp
    rw [List.foldl_nil, hs, hseen]
  | cons v vs ih =>
    have hseen : seen ∪ SortedSet.ofList [v] ∪ SortedSet.ofList vs =
        seen ∪ SortedSet.ofList (v :: vs) := SortedSet.ext fun w ↦ by simp [or_assoc]
    rw [List.foldl_cons, ih fun b ↦ mem_withBoth_of_domain hs, hseen]

/-- What has grown are the assignments over the vocabulary. -/
theorem mem_grown {v : Vocabulary} {a : Assignment} : a ∈ v.grown ↔ a.domain = v := by
  have hstart (b : Assignment) : b ∈ SortedSet.ofList [∅] ↔ b.domain = ∅ := by
    rw [SortedSet.mem_ofList, List.mem_singleton]
    constructor
    · rintro rfl
      rfl
    · intro hb
      refine Assignment.ext fun w ↦ ?_
      have hw : w ∉ b.domain := by
        rw [hb]
        exact SortedSet.not_mem_empty w
      rw [mem_domain, Option.not_isSome_iff_eq_none] at hw
      rw [hw, get?_empty]
  have hv : ∅ ∪ SortedSet.ofList v.toList = v := SortedSet.ext fun w ↦ by simp
  rw [grown, mem_foldl_withBoth hstart, hv]

/-- They are listed in the order in which the assignments over the vocabulary are. -/
theorem toList_grown (v : Vocabulary) : v.grown.toList = v.assignments := by
  refine Ascending.eq_of_mem_iff v.grown.ascending v.assignments_ascending fun a ↦ ?_
  rw [SortedSet.mem_toList, mem_grown, mem_assignments]

/-! ### Positions -/

/-- The assignments are listed by their rows as numbers. -/
theorem getElem?_assignments {v : Vocabulary} {i : Nat} (h : i < 2 ^ v.size) :
    v.assignments[i]? = some (v.assignRow (binaryRow v.size i)) := by
  rw [assignments, truthRows_eq_map_range, List.map_map, List.getElem?_map, List.getElem?_range h]
  rfl

/-- The row of a number gives each variable the value for which its digit stands. -/
theorem get?_assignRow_binaryRow (v : Vocabulary) (i : Nat) (k : Fin v.size) :
    (v.assignRow (binaryRow v.size i)).get? (v.toList.get k) =
      some (!i.testBit (v.size - 1 - k)) := by
  have hpair : (v.toList.zip (binaryRow v.size i))[k.val]? =
      some (v.toList.get k, !i.testBit (v.size - 1 - k)) := by
    rw [List.getElem?_zip_eq_some]
    exact ⟨List.getElem?_eq_getElem k.isLt, getElem?_binaryRow k.isLt i⟩
  exact get?_eq_some_iff.mpr (List.mem_of_getElem? hpair)

/-- The assignments over a vocabulary of `n` variables are those that come from the empty one when
its variables are given both values one after another. There are `2 ^ n` of them, all different, in
strictly ascending order, and they are all the assignments to just these variables. In the one at
place `i` the variable at place `k` is true exactly if the binary digit of `i` of weight
`2 ^ (n - 1 - k)` is 0. -/
theorem assignments_count_in_binary (v : Vocabulary) :
    v.assignments = v.grown.toList ∧
    v.assignments.length = 2 ^ v.size ∧
    v.assignments.Nodup ∧
    Ascending compare v.assignments ∧
    (∀ a, a ∈ v.assignments ↔ a.domain = v) ∧
    ∀ i : Fin (2 ^ v.size), ∃ a, v.assignments[i.val]? = some a ∧ ∀ k : Fin v.size,
      (a.get? (v.toList.get k)).isSome ∧
      (a.get? (v.toList.get k) = some true ↔ i.val.testBit (v.size - 1 - k) = false) := by
  refine ⟨v.toList_grown.symm, v.length_assignments, v.assignments_ascending.nodup,
    v.assignments_ascending, fun a ↦ mem_assignments,
    fun i ↦ ⟨_, getElem?_assignments i.isLt, fun k ↦ ?_⟩⟩
  rw [get?_assignRow_binaryRow, Option.some.injEq, Bool.not_eq_true']
  exact ⟨rfl, Iff.rfl⟩

end Vocabulary

end Sentential

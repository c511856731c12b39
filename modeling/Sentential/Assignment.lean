import Sentential.Vocabulary

/-!
# Assignments

An assignment gives truth values to finitely many variables. It is kept as its pairs in
ascending order of the variables; `get?` is its view as a partial function, `ext` says that the
view determines it, and each operation has one law about `get?`.

Assignments are compared pair by pair, a true variable coming before a false one, and a shorter
list of pairs before its extensions. Over one vocabulary this is the usual order of the rows of
a truth table.
-/

namespace Sentential

/-- The digit that stands for a truth value. -/
def digit (value : Bool) : Char := if value then '1' else '0'

/-- Truth values for finitely many variables. -/
structure Assignment where
  /-- The variables with their values, in ascending order of the variables. -/
  pairs : List (Variable × Bool)
  ascending : Ascending (compareOn Prod.fst) pairs
  deriving DecidableEq

namespace Assignment

/-- The assignment that gives no variable a value. -/
def empty : Assignment := ⟨[], Ascending.nil⟩

/-- The empty assignment stands for `∅`. -/
instance : EmptyCollection Assignment where emptyCollection := empty

/-- The value of a variable, if it has one. -/
def get? (a : Assignment) (v : Variable) : Option Bool := a.pairs.lookup v

/-- Whether a variable has a value. -/
def contains (a : Assignment) (v : Variable) : Bool := (a.get? v).isSome

/-- The number of variables with a value. -/
def size (a : Assignment) : Nat := a.pairs.length

/-- Whether no variable has a value. -/
def isEmpty (a : Assignment) : Bool := a.pairs.isEmpty

/-- Give values to more variables; a variable that had a value takes the new one, and of
several new ones the last. -/
def setAll (a : Assignment) (pairs : List (Variable × Bool)) : Assignment :=
  ⟨Ascending.placeAll (compareOn Prod.fst) pairs a.pairs,
    Ascending.placeAll_ascending pairs a.ascending⟩

/-- The assignment of a list of pairs; a later pair wins over an earlier one. -/
def ofList (pairs : List (Variable × Bool)) : Assignment := empty.setAll pairs

/-- Both assignments together; where both give a value, that of the second counts. -/
def overlay (a b : Assignment) : Assignment := a.setAll b.pairs

/-- The sum of two assignments is the first with the values of the second set. -/
instance : Add Assignment where add a b := a.setAll b.pairs

/-- The variables that have a value. -/
def domain (a : Assignment) : Vocabulary :=
  ⟨a.pairs.map Prod.fst, List.pairwise_map.mpr a.ascending⟩

/-- The values of the variables of a vocabulary only. -/
def restrict (a : Assignment) (v : Vocabulary) : Assignment :=
  ⟨a.pairs.filter fun pair ↦ v.contains pair.1, a.ascending.filter _⟩

/-- Pairs are ranked by variable, and for one variable true comes before false. -/
def comparePairs : Variable × Bool → Variable × Bool → Ordering :=
  compareLex (compareOn Prod.fst) (compareOn fun pair ↦ !pair.2)

/-- Assignments are compared pair by pair; a shorter one comes before its extensions. -/
instance : Ord Assignment where compare a b := a.pairs.compareLex comparePairs b.pairs

/-- The comparison as one that might not rank all assignments, although it does. -/
def compare? (a b : Assignment) : Option Ordering := some (compare a b)

/-- Coming before another assignment. -/
instance : LT Assignment where lt a b := a.compare? b = some .lt

/-- Coming before another assignment or being equal to it. -/
instance : LE Assignment where le a b := a.compare? b = some .lt ∨ a.compare? b = some .eq

/-- Coming before is decided by comparing. -/
instance (a b : Assignment) : Decidable (a < b) :=
  inferInstanceAs (Decidable (a.compare? b = some .lt))

/-- Coming before or being equal is decided by comparing. -/
instance (a b : Assignment) : Decidable (a ≤ b) :=
  inferInstanceAs (Decidable (a.compare? b = some .lt ∨ a.compare? b = some .eq))

/-- The text of an assignment: each label with the digit of its value, between braces. -/
def text (a : Assignment) : String :=
  braced (a.pairs.map fun (v, value) ↦ v.label ++ ": " ++ (digit value).toString)

/-- The pairs determine the assignment. -/
theorem eq_of_pairs_eq {a b : Assignment} (h : a.pairs = b.pairs) : a = b := by
  cases a
  cases b
  cases h
  rfl

/-- Ranking pairs is transitive. -/
instance : Std.TransCmp comparePairs :=
  inferInstanceAs (Std.TransCmp (compareLex (compareOn Prod.fst) (compareOn fun pair ↦ !pair.2)))

/-- Pairs of the same rank are equal. -/
instance : Std.LawfulEqCmp comparePairs where
  eq_of_compare := by
    rintro ⟨v, x⟩ ⟨w, y⟩ h
    obtain ⟨hv, hx⟩ := compareLex_eq_eq.mp h
    obtain rfl : v = w := Std.LawfulEqOrd.eq_of_compare hv
    have hx : (!x) = !y := Std.LawfulEqOrd.eq_of_compare hx
    simpa using hx

/-- Pairs of one variable are ranked by their values. -/
theorem comparePairs_value (v : Variable) (x y : Bool) :
    comparePairs (v, x) (v, y) = compare (!x) (!y) := by
  simp [comparePairs, compareLex, compareOn, Std.ReflCmp.compare_self]

/-- Comparing assignments is comparing their pairs. -/
theorem compare_pairs (a b : Assignment) :
    compare a b = a.pairs.compareLex comparePairs b.pairs := rfl

/-- The order of assignments is total and transitive. -/
instance : Std.TransOrd Assignment where
  eq_swap := by
    intro a b
    rw [compare_pairs, compare_pairs]
    exact Std.OrientedCmp.eq_swap
  isLE_trans := by
    intro a b c hab hbc
    rw [compare_pairs] at hab hbc ⊢
    exact Std.TransCmp.isLE_trans hab hbc

/-- Assignments compare as equal only when they are. -/
instance : Std.LawfulEqOrd Assignment where
  compare_self := by
    intro a
    rw [compare_pairs]
    exact Std.ReflCmp.compare_self
  eq_of_compare := by
    intro a b h
    rw [compare_pairs] at h
    exact eq_of_pairs_eq (Std.LawfulEqCmp.eq_of_compare h)

private theorem lookup_cons_eq (x : Variable × Bool) (xs : List (Variable × Bool))
    (v : Variable) : (x :: xs).lookup v = if v = x.1 then some x.2 else xs.lookup v := by
  obtain ⟨w, value⟩ := x
  rw [List.lookup_cons]
  by_cases e : v = w
  · simp [e]
  · simp [e, beq_false_of_ne e]

private theorem lookup_eq_some_iff {xs : List (Variable × Bool)}
    (h : xs.Pairwise fun x y ↦ x.1 ≠ y.1) {v : Variable} {value : Bool} :
    xs.lookup v = some value ↔ (v, value) ∈ xs := by
  induction xs with
  | nil => simp
  | cons x xs ih =>
    obtain ⟨hx, hxs⟩ := List.pairwise_cons.mp h
    rw [lookup_cons_eq, List.mem_cons]
    split
    · rename_i e
      subst e
      have fresh : (x.1, value) ∉ xs := fun hm ↦ hx _ hm rfl
      simp [fresh, Prod.ext_iff, eq_comm]
    · rename_i e
      simp [e, ih hxs, Prod.ext_iff]

private theorem distinct {xs : List (Variable × Bool)}
    (h : Ascending (compareOn Prod.fst) xs) : xs.Pairwise fun x y ↦ x.1 ≠ y.1 :=
  h.imp fun hlt e ↦ by simp [compareOn, e, Std.ReflCmp.compare_self] at hlt

private theorem lookup_place (x : Variable × Bool) (ys : List (Variable × Bool)) (v : Variable) :
    (Ascending.place (compareOn Prod.fst) x ys).lookup v =
      if v = x.1 then some x.2 else ys.lookup v := by
  induction ys with
  | nil => rw [Ascending.place, lookup_cons_eq]
  | cons y ys ih =>
    rw [Ascending.place]
    split
    · rw [lookup_cons_eq]
    · rename_i hxy
      have hxy : x.1 = y.1 := Std.LawfulEqOrd.eq_of_compare hxy
      grind [lookup_cons_eq]
    · rename_i hxy
      have hxy : x.1 ≠ y.1 := fun e ↦ by
        simp [compareOn, e, Std.ReflCmp.compare_self] at hxy
      grind [lookup_cons_eq]

/-- A variable has a value exactly when the pair is listed. -/
theorem get?_eq_some_iff {a : Assignment} {v : Variable} {value : Bool} :
    a.get? v = some value ↔ (v, value) ∈ a.pairs :=
  lookup_eq_some_iff (distinct a.ascending)

/-- The values determine the assignment. -/
theorem ext {a b : Assignment} (h : ∀ v, a.get? v = b.get? v) : a = b :=
  eq_of_pairs_eq (Ascending.eq_of_mem_iff a.ascending b.ascending fun ⟨v, value⟩ ↦ by
    rw [← get?_eq_some_iff, ← get?_eq_some_iff, h])

/-- The empty assignment gives no values. -/
@[simp] theorem get?_empty (v : Variable) : (∅ : Assignment).get? v = none := rfl

/-- After setting, the last new value counts, and the old one where there is no new one. -/
theorem get?_setAll (a : Assignment) (pairs : List (Variable × Bool)) (v : Variable) :
    (a.setAll pairs).get? v = (pairs.reverse.lookup v).or (a.get? v) := by
  obtain ⟨start, h⟩ := a
  simp only [get?, setAll, Ascending.placeAll]
  clear h
  induction pairs generalizing start with
  | nil => simp
  | cons x xs ih =>
    rw [List.foldl_cons, ih, lookup_place, List.reverse_cons, List.lookup_append]
    cases xs.reverse.lookup v <;> by_cases e : v = x.1 <;> simp [lookup_cons_eq, e]

/-- After setting the values of an assignment, these come first. -/
theorem get?_setAll_pairs (a b : Assignment) (v : Variable) :
    (a.setAll b.pairs).get? v = (b.get? v).or (a.get? v) := by
  have hr : b.pairs.reverse.Pairwise fun x y ↦ x.1 ≠ y.1 :=
    List.pairwise_reverse.mpr ((distinct b.ascending).imp Ne.symm)
  have h : b.pairs.reverse.lookup v = b.get? v :=
    Option.ext fun value ↦ by
      rw [lookup_eq_some_iff hr, List.mem_reverse, get?_eq_some_iff]
  rw [get?_setAll, h]

/-- In an overlay the values of the second assignment come first. -/
@[simp] theorem get?_overlay (a b : Assignment) (v : Variable) :
    (a.overlay b).get? v = (b.get? v).or (a.get? v) := get?_setAll_pairs a b v

/-- In a sum the values of the second assignment come first. -/
@[simp] theorem get?_add (a b : Assignment) (v : Variable) :
    (a + b).get? v = (b.get? v).or (a.get? v) := get?_setAll_pairs a b v

/-- A restriction keeps the values of the variables of the vocabulary. -/
@[simp] theorem get?_restrict (a : Assignment) (v : Vocabulary) (x : Variable) :
    (a.restrict v).get? x = if x ∈ v then a.get? x else none := by
  refine Option.ext fun value ↦ ?_
  rw [get?_eq_some_iff, restrict, List.mem_filter, ← get?_eq_some_iff, SortedSet.contains_iff]
  by_cases h : x ∈ v <;> simp [h]

/-- The domain holds the variables that have a value. -/
@[simp] theorem mem_domain {a : Assignment} {v : Variable} : v ∈ a.domain ↔ (a.get? v).isSome := by
  rw [← SortedSet.mem_toList, domain, List.mem_map, Option.isSome_iff_exists]
  simp only [get?_eq_some_iff]
  constructor
  · rintro ⟨⟨w, value⟩, h, rfl⟩
    exact ⟨value, h⟩
  · rintro ⟨value, h⟩
    exact ⟨(v, value), h, rfl⟩

/-- A variable is contained when it has a value. -/
@[simp] theorem contains_iff {a : Assignment} {v : Variable} :
    a.contains v = true ↔ v ∈ a.domain := by
  rw [contains, mem_domain]

/-- An overlay has values for the variables of both assignments. -/
theorem domain_overlay (a b : Assignment) : (a.overlay b).domain = a.domain ∪ b.domain :=
  SortedSet.ext fun v ↦ by
    rw [mem_domain, get?_overlay, Option.isSome_or, SortedSet.mem_union, mem_domain, mem_domain,
      Bool.or_eq_true, or_comm]

end Assignment

end Sentential

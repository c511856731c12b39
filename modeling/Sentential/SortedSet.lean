import Sentential.Ascending

/-!
# Sorted sets

A finite set kept as the strictly ascending list of its members. Two sets with the same members
are equal (`ext`), and each operation has one law about membership.
-/

namespace Sentential

universe u

/-- A finite set, listed in strictly ascending order. -/
structure SortedSet (α : Type u) [Ord α] where
  /-- The members in ascending order. -/
  toList : List α
  ascending : Ascending compare toList
  deriving DecidableEq

namespace SortedSet

variable {α : Type u} [Ord α]

/-- The set without members. -/
def empty : SortedSet α := ⟨[], Ascending.nil⟩

/-- The empty set stands for `∅`. -/
instance : EmptyCollection (SortedSet α) where emptyCollection := empty

/-- Membership is membership in the list. -/
instance : Membership α (SortedSet α) where mem s x := x ∈ s.toList

/-- Membership is decided by search. -/
instance [DecidableEq α] (x : α) (s : SortedSet α) : Decidable (x ∈ s) :=
  inferInstanceAs (Decidable (x ∈ s.toList))

/-- Inclusion is membership of all members. -/
instance : HasSubset (SortedSet α) where Subset s t := ∀ x ∈ s, x ∈ t

/-- Inclusion is decided member by member. -/
instance [DecidableEq α] (s t : SortedSet α) : Decidable (s ⊆ t) :=
  inferInstanceAs (Decidable (∀ x ∈ s.toList, x ∈ t))

/-- Whether a value is a member. -/
def contains [DecidableEq α] (s : SortedSet α) (x : α) : Bool := decide (x ∈ s)

/-- The number of members. -/
def size (s : SortedSet α) : Nat := s.toList.length

/-- Whether the set has no members. -/
def isEmpty (s : SortedSet α) : Bool := s.toList.isEmpty

/-- Being a member and being listed are the same. -/
@[simp] theorem mem_toList {s : SortedSet α} {x : α} : x ∈ s.toList ↔ x ∈ s := Iff.rfl

/-- The empty set has no members. -/
@[simp] theorem not_mem_empty (x : α) : x ∉ (∅ : SortedSet α) := List.not_mem_nil

/-- The list determines the set. -/
theorem eq_of_toList_eq {s t : SortedSet α} (h : s.toList = t.toList) : s = t := by
  cases s
  cases t
  cases h
  rfl

/-- `contains` decides membership. -/
@[simp] theorem contains_iff [DecidableEq α] {s : SortedSet α} {x : α} :
    s.contains x = true ↔ x ∈ s := decide_eq_true_iff

variable [Std.TransOrd α]

/-- The set with all elements of a list besides its own members. -/
def insertAll (s : SortedSet α) (xs : List α) : SortedSet α :=
  ⟨Ascending.placeAll compare xs s.toList, Ascending.placeAll_ascending xs s.ascending⟩

/-- The set of the elements of a list, whatever their order and repetition. -/
def ofList (xs : List α) : SortedSet α := empty.insertAll xs

/-- The set of the members of either set. -/
def union (s t : SortedSet α) : SortedSet α := s.insertAll t.toList

/-- The union is written `s ∪ t`. -/
instance : Union (SortedSet α) where union := union

/-- Sets with the same members are equal. -/
theorem ext {s t : SortedSet α} (h : ∀ x, x ∈ s ↔ x ∈ t) : s = t :=
  eq_of_toList_eq (Ascending.eq_of_mem_iff s.ascending t.ascending h)

variable [Std.LawfulEqOrd α]

private theorem mem_placeAll {xs start : List α} {x : α} (h : Ascending compare start) :
    x ∈ Ascending.placeAll compare xs start ↔ x ∈ xs ∨ x ∈ start := by
  induction xs generalizing start with
  | nil => simp [Ascending.placeAll]
  | cons y ys ih =>
    refine (ih (Ascending.place_ascending y h)).trans ?_
    rw [Ascending.mem_place_iff h]
    simp only [ne_eq, Std.LawfulEqOrd.compare_eq_iff_eq, List.mem_cons]
    grind

/-- Inserting adds exactly the elements of the list. -/
@[simp] theorem mem_insertAll {s : SortedSet α} {xs : List α} {x : α} :
    x ∈ s.insertAll xs ↔ x ∈ xs ∨ x ∈ s := mem_placeAll s.ascending

/-- The set of a list has the elements of the list. -/
@[simp] theorem mem_ofList {xs : List α} {x : α} : x ∈ ofList xs ↔ x ∈ xs := by
  simp [ofList, empty, ← mem_toList (s := ⟨[], _⟩)]

/-- Lists of the same elements have the same set, whatever their order and repetition. -/
theorem ofList_congr {xs ys : List α} (h : ∀ x, x ∈ xs ↔ x ∈ ys) : ofList xs = ofList ys :=
  ext fun x ↦ by rw [mem_ofList, mem_ofList, h]

/-- The union has the members of both. -/
@[simp] theorem mem_union {s t : SortedSet α} {x : α} : x ∈ s ∪ t ↔ x ∈ s ∨ x ∈ t := by
  simp [Union.union, union, or_comm]

/-- A union does not depend on which set is named first. -/
theorem union_comm (s t : SortedSet α) : s ∪ t = t ∪ s :=
  ext fun x ↦ by rw [mem_union, mem_union, or_comm]

/-- The union of a set with itself is the set. -/
@[simp] theorem union_self (s : SortedSet α) : s ∪ s = s :=
  ext fun x ↦ by rw [mem_union, or_self_iff]

/-- A union includes its first set. -/
theorem subset_union_left {s t : SortedSet α} : s ⊆ s ∪ t := fun _ hx ↦ mem_union.mpr (.inl hx)

/-- A union includes its second set. -/
theorem subset_union_right {s t : SortedSet α} : t ⊆ s ∪ t := fun _ hx ↦ mem_union.mpr (.inr hx)

/-- A union is included where both sets are. -/
theorem union_subset_iff {s t u : SortedSet α} : s ∪ t ⊆ u ↔ s ⊆ u ∧ t ⊆ u := by
  constructor
  · intro h
    exact ⟨fun x hx ↦ h x (subset_union_left x hx), fun x hx ↦ h x (subset_union_right x hx)⟩
  · rintro ⟨hs, ht⟩ x hx
    rcases mem_union.mp hx with hx | hx
    · exact hs x hx
    · exact ht x hx

/-- The set of the members of a set is the set itself. -/
@[simp] theorem ofList_toList (s : SortedSet α) : ofList s.toList = s :=
  ext fun _ ↦ mem_ofList

end SortedSet

end Sentential

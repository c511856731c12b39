import Sentential.Sentence

/-!
# The structural order of sentences

Sentences are compared by their form first (atom, negation, connective, set), then part by part
from left to right; sets compare member by member, a shorter list before its extensions. The
order is total, and only equal sentences compare as equal. `Sentence.setOf` lists the members of
a set in this order, each once, so that a set does not depend on how it was given.
-/

namespace Sentential

namespace Sentence

mutual

/-- The structural comparison of two sentences. -/
def compareStructure : Sentence → Sentence → Ordering
  | atom v, atom w => compare v w
  | atom _, _ => .lt
  | negation _, atom _ => .gt
  | negation s, negation t => compareStructure s t
  | negation _, _ => .lt
  | binary .., atom _ | binary .., negation _ => .gt
  | binary c left right, binary d left' right' =>
    (compare c d).then ((compareStructure left left').then (compareStructure right right'))
  | binary .., set _ => .lt
  | set members, set members' => compareMembers members members'
  | set _, _ => .gt

/-- The comparison of two lists of sentences, member by member. -/
def compareMembers : List Sentence → List Sentence → Ordering
  | [], [] => .eq
  | [], _ :: _ => .lt
  | _ :: _, [] => .gt
  | s :: rest, t :: rest' => (compareStructure s t).then (compareMembers rest rest')

end

/-- Sentences are ordered by structure. -/
instance : Ord Sentence where compare := compareStructure

mutual

private theorem eq_of_structure : ∀ {s t : Sentence}, compareStructure s t = .eq → s = t
  | atom v, t, h => by
    cases t <;> simp [compareStructure] at h
    exact congrArg atom h
  | negation s, t, h => by
    cases t <;> simp [compareStructure] at h
    exact congrArg negation (eq_of_structure h)
  | binary c left right, t, h => by
    cases t <;> simp [compareStructure, Ordering.then_eq_eq] at h
    obtain ⟨rfl, hl, hr⟩ := h
    rw [eq_of_structure hl, eq_of_structure hr]
  | set members, t, h => by
    cases t <;> simp [compareStructure] at h
    exact congrArg set (eq_of_members h)

private theorem eq_of_members :
    ∀ {ss ts : List Sentence}, compareMembers ss ts = .eq → ss = ts
  | [], ts, h => by
    cases ts <;> simp [compareMembers] at h
    rfl
  | s :: ss, ts, h => by
    cases ts <;> simp [compareMembers, Ordering.then_eq_eq] at h
    rw [eq_of_structure h.1, eq_of_members h.2]

end

mutual

private theorem structure_self : ∀ s : Sentence, compareStructure s s = .eq
  | atom v => by simp [compareStructure]
  | negation s => by simp [compareStructure, structure_self s]
  | binary c left right => by
    simp [compareStructure, structure_self left, structure_self right]
  | set members => by simp [compareStructure, members_self members]

private theorem members_self : ∀ ss : List Sentence, compareMembers ss ss = .eq
  | [] => by simp [compareMembers]
  | s :: ss => by simp [compareMembers, structure_self s, members_self ss]

end

mutual

private theorem structure_swap :
    ∀ s t : Sentence, compareStructure s t = (compareStructure t s).swap
  | atom v, t => by
    cases t <;> simp [compareStructure]
    exact Std.OrientedCmp.eq_swap
  | negation s, t => by
    cases t <;> simp [compareStructure]
    exact structure_swap s _
  | binary c left right, t => by
    cases t <;> simp [compareStructure, Ordering.swap_then]
    rename_i d left' right'
    have hc : compare c d = (compare d c).swap := Std.OrientedCmp.eq_swap
    rw [structure_swap left, structure_swap right, hc]
  | set members, t => by
    cases t <;> simp [compareStructure]
    exact members_swap members _

private theorem members_swap :
    ∀ ss ts : List Sentence, compareMembers ss ts = (compareMembers ts ss).swap
  | [], ts => by cases ts <;> simp [compareMembers]
  | s :: ss, ts => by
    cases ts <;> simp [compareMembers, Ordering.swap_then]
    rw [structure_swap s, members_swap ss]

end

mutual

private theorem structure_trans : ∀ {s t u : Sentence},
    compareStructure s t = .lt → compareStructure t u = .lt → compareStructure s u = .lt
  | atom v, t, u, hst, htu => by
    cases t <;> cases u <;> simp [compareStructure] at hst htu ⊢
    exact Std.TransCmp.lt_trans hst htu
  | negation s, t, u, hst, htu => by
    cases t <;> cases u <;> simp [compareStructure] at hst htu ⊢
    exact structure_trans hst htu
  | binary c left right, t, u, hst, htu => by
    cases t <;> cases u <;> simp [compareStructure, Ordering.then_eq_lt] at hst htu ⊢
    rename_i d left' right' e left'' right''
    rcases hst with hcd | ⟨rfl, hl | ⟨hl, hr⟩⟩
    · rcases htu with hde | ⟨rfl, _⟩
      · exact .inl (Std.TransCmp.lt_trans hcd hde)
      · exact .inl hcd
    · rcases htu with hde | ⟨rfl, hl' | ⟨hl', _⟩⟩
      · exact .inl hde
      · exact .inr ⟨rfl, .inl (structure_trans hl hl')⟩
      · exact .inr ⟨rfl, .inl (eq_of_structure hl' ▸ hl)⟩
    · rcases htu with hde | ⟨rfl, hl' | ⟨hl', hr'⟩⟩
      · exact .inl hde
      · exact .inr ⟨rfl, .inl (eq_of_structure hl ▸ hl')⟩
      · exact .inr ⟨rfl, .inr ⟨eq_of_structure hl ▸ hl', structure_trans hr hr'⟩⟩
  | set members, t, u, hst, htu => by
    cases t <;> cases u <;> simp [compareStructure] at hst htu ⊢
    exact members_trans hst htu

private theorem members_trans : ∀ {ss ts us : List Sentence},
    compareMembers ss ts = .lt → compareMembers ts us = .lt → compareMembers ss us = .lt
  | [], ts, us, hst, htu => by
    cases ts <;> cases us <;> simp [compareMembers] at hst htu ⊢
  | s :: ss, ts, us, hst, htu => by
    cases ts <;> cases us <;> simp [compareMembers, Ordering.then_eq_lt] at hst htu ⊢
    rcases hst with h | ⟨h, hs⟩
    · rcases htu with h' | ⟨h', _⟩
      · exact .inl (structure_trans h h')
      · exact .inl (eq_of_structure h' ▸ h)
    · rcases htu with h' | ⟨h', hs'⟩
      · exact .inl (eq_of_structure h ▸ h')
      · exact .inr ⟨eq_of_structure h ▸ h', members_trans hs hs'⟩

end

/-- Only equal sentences compare as equal. -/
theorem compareStructure_eq_iff {s t : Sentence} : compareStructure s t = .eq ↔ s = t :=
  ⟨eq_of_structure, fun h ↦ h ▸ structure_self s⟩

/-- Sentences compare as equal only when they are. -/
instance : Std.LawfulEqOrd Sentence where
  compare_self := by
    intro s
    exact structure_self s
  eq_of_compare := by
    intro s t h
    exact eq_of_structure h

/-- The structural order is total and transitive. -/
instance : Std.TransOrd Sentence where
  eq_swap := by
    intro s t
    exact structure_swap s t
  isLE_trans := by
    intro s t u hst htu
    change (compareStructure s t).isLE = true at hst
    change (compareStructure t u).isLE = true at htu
    change (compareStructure s u).isLE = true
    rcases Ordering.isLE_iff_eq_lt_or_eq_eq.mp hst with hst | hst
    · rcases Ordering.isLE_iff_eq_lt_or_eq_eq.mp htu with htu | htu
      · simp [structure_trans hst htu]
      · simp [← eq_of_structure htu, hst]
    · rw [eq_of_structure hst]
      exact htu

/-- Equality of sentences is decided by comparing them. -/
instance : DecidableEq Sentence := fun _ _ ↦ decidable_of_iff _ compareStructure_eq_iff

/-- The set of the given sentences, listed in structural order without repetition. -/
def setOf (sentences : List Sentence) : Sentence := set (SortedSet.ofList sentences).toList

end Sentence

end Sentential

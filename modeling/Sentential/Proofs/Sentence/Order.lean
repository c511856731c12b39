import Sentential.Proofs.Lexicographic
import Sentential.Sentence.Order

/-!
# The structural order

Sentences are compared as a form, the variable of an atom and a list of immediate parts, in this
order, where the parts are compared in the same way in their turn. This is a strict total order, so
the members of a set come in one order only, and a set is determined by them.
-/

namespace Sentential

namespace Sentence

variable {s t : Sentence}

/-- The place of the form of a sentence: atoms, negations, the connectives by rank, sets. -/
def formRank : Sentence → Nat
  | atom _ => 0
  | negation _ => 1
  | binary connective _ _ => 2 + connective.rank
  | set _ => 7

/-- The variable of an atom. -/
def atomVariable? : Sentence → Option Variable
  | atom v => some v
  | negation _ | binary .. | set _ => none

/-- Sets come last. -/
theorem formRank_lt_of_binary (c : Connective) (left right : Sentence) :
    (binary c left right).formRank < 7 := by
  cases c <;> simp [formRank, Connective.rank]

/-- Lists of sentences are compared lexicographically. -/
theorem compareMembers_eq_compareLex (ss ts : List Sentence) :
    compareMembers ss ts = ss.compareLex compare ts := by
  induction ss generalizing ts with
  | nil => cases ts <;> rfl
  | cons s ss ih =>
    cases ts with
    | nil => rfl
    | cons t ts =>
      rw [compareMembers, ih, List.compareLex_cons_cons]
      rfl

/-- Of two sentences of different forms the one of the lower form comes first. -/
theorem compare_of_formRank_lt (h : s.formRank < t.formRank) : compare s t = .lt := by
  cases s with
  | atom v =>
    cases t with
    | atom w => exact absurd h (Nat.lt_irrefl 0)
    | negation | binary | set => rfl
  | negation target =>
    cases t with
    | atom w => exact absurd h (Nat.not_lt_zero 1)
    | negation target' => exact absurd h (Nat.lt_irrefl 1)
    | binary | set => rfl
  | binary c left right =>
    cases t with
    | atom w => exact absurd h (Nat.not_lt_zero _)
    | negation target' =>
      simp only [formRank] at h
      omega
    | binary d left' right' =>
      have hrank : compare c d = .lt := Nat.compare_eq_lt.mpr (Nat.lt_of_add_lt_add_left h)
      change (compare c d).then _ = _
      rw [hrank]
      rfl
    | set members => rfl
  | set members =>
    cases t with
    | binary d left' right' => exact absurd h (Nat.lt_asymm (formRank_lt_of_binary d left' right'))
    | atom | negation | set =>
      simp only [formRank] at h
      omega

/-- Sentences of the same form are compared as atoms by their variables and part by part. -/
theorem compare_of_formRank_eq (h : s.formRank = t.formRank) :
    compare s t = (compare s.atomVariable? t.atomVariable?).then
      (s.children.compareLex compare t.children) := by
  cases s with
  | atom v =>
    cases t with
    | atom w => exact Ordering.then_eq.symm
    | negation | binary | set =>
      simp only [formRank] at h
      omega
  | negation target =>
    cases t with
    | negation target' => exact (List.compareLex_cons_cons.trans Ordering.then_eq).symm
    | atom | binary | set =>
      simp only [formRank] at h
      omega
  | binary c left right =>
    cases t with
    | binary d left' right' =>
      obtain rfl : c = d := Connective.rank_inj.mp (Nat.add_left_cancel h)
      have hself : compare c c = .eq := Std.ReflCmp.compare_self
      change (compare c c).then ((compare left left').then (compare right right')) =
        [left, right].compareLex compare [left', right']
      rw [hself, List.compareLex_cons_cons, List.compareLex_cons_cons, List.compareLex_nil_nil,
        Ordering.then_eq]
      rfl
    | set members => exact absurd h (Nat.ne_of_lt (formRank_lt_of_binary c left right))
    | atom | negation =>
      simp only [formRank] at h
      omega
  | set members =>
    cases t with
    | set members' => exact compareMembers_eq_compareLex members members'
    | binary d left' right' =>
      exact absurd h.symm (Nat.ne_of_lt (formRank_lt_of_binary d left' right'))
    | atom | negation =>
      simp only [formRank] at h
      omega

/-- Sentences are compared by their forms first, then as atoms by their variables, then part by
part. -/
theorem compare_eq_lexicographic (s t : Sentence) :
    compare s t =
      ((compare s.formRank t.formRank).then (compare s.atomVariable? t.atomVariable?)).then
        (s.children.compareLex compare t.children) := by
  rcases Nat.lt_trichotomy s.formRank t.formRank with h | h | h
  · rw [compare_of_formRank_lt h, Nat.compare_eq_lt.mpr h]
    rfl
  · rw [compare_of_formRank_eq h, Nat.compare_eq_eq.mpr h]
    rfl
  · rw [Std.OrientedCmp.gt_of_lt (compare_of_formRank_lt h), Nat.compare_eq_gt.mpr h]
    rfl

/-- Sets of the same sentences are equal, and only these. -/
theorem setOf_inj {sentences sentences' : List Sentence} :
    setOf sentences = setOf sentences' ↔ ∀ s, s ∈ sentences ↔ s ∈ sentences' := by
  rw [setOf, setOf, set.injEq]
  constructor
  · intro h s
    rw [← SortedSet.mem_ofList, SortedSet.eq_of_toList_eq h, SortedSet.mem_ofList]
  · intro h
    rw [SortedSet.ofList_congr h]

/-- Sentences are compared by form, then as atoms by their variables, then part by part from left to
right. This is a strict total order in which only equal sentences compare as equal. A set lists the
sentences it was made of in strictly ascending order, and two sets are equal exactly if they were
made of the same sentences, in whatever order and however often. -/
theorem structural_order_canonical :
    (∀ s t : Sentence, compare s t =
      ((compare s.formRank t.formRank).then (compare s.atomVariable? t.atomVariable?)).then
        (s.children.compareLex compare t.children)) ∧
    IsStrictTotalOrder Sentence (fun s t ↦ compare s t = .lt) ∧
    (∀ s t : Sentence, compare s t = .eq ↔ s = t) ∧
    (∀ s t : Sentence, compare s t = .gt ↔ compare t s = .lt) ∧
    (∀ sentences, Ascending compare (setOf sentences).children ∧
      ∀ s, s ∈ (setOf sentences).children ↔ s ∈ sentences) ∧
    ∀ sentences sentences', setOf sentences = setOf sentences' ↔
      ∀ s, s ∈ sentences ↔ s ∈ sentences' :=
  ⟨compare_eq_lexicographic, isStrictTotalOrder_compare,
    fun _ _ ↦ Std.LawfulEqOrd.compare_eq_iff_eq, fun _ _ ↦ Std.OrientedCmp.gt_iff_lt,
    fun sentences ↦ ⟨(SortedSet.ofList sentences).ascending, fun _ ↦ SortedSet.mem_ofList⟩,
    fun _ _ ↦ setOf_inj⟩

end Sentence

end Sentential

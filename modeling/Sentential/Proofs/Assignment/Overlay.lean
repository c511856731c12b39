import Sentential.Proofs.Assignment.Restriction
import Sentential.Proofs.Sentence.Definedness

/-!
# Laying assignments over each other

In an overlay the second assignment wins, so the order of two assignments matters exactly where they
give different values to a variable; how several of them are grouped does not. A sentence all of
whose variables have values in the second assignment sees only that one, and a sentence none of
whose variables have values there sees only the first.
-/

namespace Sentential

namespace Assignment

variable {a b : Assignment} {v : Variable}

/-- The assignments give the same values to the variables to which both give one. -/
def AgreesWith (a b : Assignment) : Prop := ∀ v ∈ a.domain, v ∈ b.domain → a.get? v = b.get? v

/-- The variables outside of the domain have no value. -/
theorem get?_eq_none_iff : a.get? v = none ↔ v ∉ a.domain := by
  rw [mem_domain, Option.not_isSome_iff_eq_none]

/-- Where the second assignment gives a value, the overlay has it. -/
theorem get?_overlay_of_mem (h : v ∈ b.domain) : (a.overlay b).get? v = b.get? v := by
  rw [get?_overlay, Option.or_of_isSome (mem_domain.mp h)]

/-- Elsewhere the overlay is the first assignment. -/
theorem get?_overlay_of_not_mem (h : v ∉ b.domain) : (a.overlay b).get? v = a.get? v := by
  rw [get?_overlay, get?_eq_none_iff.mpr h, Option.none_or]

/-- The overlay has the values of the sum. -/
theorem overlay_eq_add (a b : Assignment) : a.overlay b = a + b :=
  ext fun v ↦ by rw [get?_overlay, get?_add]

/-- How overlays are grouped does not matter. -/
theorem overlay_assoc (a b c : Assignment) :
    (a.overlay b).overlay c = a.overlay (b.overlay c) :=
  ext fun v ↦ by simp only [get?_overlay, Option.or_assoc]

/-- An assignment laid over itself changes nothing. -/
theorem overlay_self (a : Assignment) : a.overlay a = a :=
  ext fun v ↦ by rw [get?_overlay, Option.or_self]

/-- Laid over the empty assignment, an assignment is as before. -/
theorem empty_overlay (a : Assignment) : (∅ : Assignment).overlay a = a := ofList_pairs a

/-- The empty assignment laid over another changes nothing. -/
theorem overlay_empty (a : Assignment) : a.overlay ∅ = a :=
  ext fun v ↦ by rw [get?_overlay, get?_empty, Option.none_or]

/-- The order matters exactly where the assignments give different values to a variable. -/
theorem overlay_comm_iff : a.overlay b = b.overlay a ↔ a.AgreesWith b := by
  constructor
  · intro h v ha hb
    rw [← get?_overlay_of_mem (a := b) ha, ← h, get?_overlay_of_mem hb]
  · intro h
    refine ext fun v ↦ ?_
    by_cases ha : v ∈ a.domain <;> by_cases hb : v ∈ b.domain
    · rw [get?_overlay_of_mem hb, get?_overlay_of_mem ha, h v ha hb]
    · rw [get?_overlay_of_not_mem hb, get?_overlay_of_mem ha]
    · rw [get?_overlay_of_mem hb, get?_overlay_of_not_mem ha]
    · rw [get?_overlay_of_not_mem hb, get?_overlay_of_not_mem ha, get?_eq_none_iff.mpr ha,
        get?_eq_none_iff.mpr hb]

end Assignment

namespace Sentence

variable {a b : Assignment} {s : Sentence}

/-- A sentence whose variables all have values in the second assignment sees only that one. -/
theorem evaluate_overlay_of_subset (h : s.vocabulary ⊆ b.domain) :
    s.evaluate (a.overlay b) = s.evaluate b :=
  evaluate_congr fun v hv ↦ Assignment.get?_overlay_of_mem (h v hv)

/-- A sentence whose variables have no values in the second assignment sees only the first one, and
fails as it does there. -/
theorem evaluate_overlay_of_disjoint (h : ∀ v ∈ s.vocabulary, v ∉ b.domain) :
    s.evaluate (a.overlay b) = s.evaluate a :=
  evaluate_congr fun v hv ↦ Assignment.get?_overlay_of_not_mem (h v hv)

/-- A sentence has a value in the overlay exactly if each of its variables has one in one of the
assignments. -/
theorem exists_evaluate_overlay_iff :
    (∃ value, s.evaluate (a.overlay b) = .ok value) ↔
      ∀ v ∈ s.vocabulary, v ∈ a.domain ∨ v ∈ b.domain := by
  rw [exists_evaluate_eq_ok_iff, Assignment.domain_overlay]
  exact forall₂_congr fun v _ ↦ SortedSet.mem_union

end Sentence

namespace Assignment

/-- Laying assignments over each other is adding them: each variable has the value that the second
assignment gives to it, or else that of the first. The operation is associative and idempotent, with
the empty assignment as neutral element, and the order of two assignments does not matter exactly if
they agree on the variables of both. The overlay gives values to the variables of both assignments.
In it a sentence evaluates as in the second assignment if that one has all variables of the
sentence, and as in the first, with the same error, if the second has none of them; it has a value
exactly if each of its variables has one in either assignment. -/
theorem overlay_laws (a b c : Assignment) (s : Sentence) :
    (a.overlay b = a + b ∧ ∀ v, (a + b).get? v = (b.get? v).or (a.get? v)) ∧
    (a.overlay b).overlay c = a.overlay (b.overlay c) ∧
    a.overlay a = a ∧
    ((∅ : Assignment).overlay a = a ∧ a.overlay ∅ = a) ∧
    (a.overlay b = b.overlay a ↔ a.AgreesWith b) ∧
    (a.overlay b).domain = a.domain ∪ b.domain ∧
    (s.vocabulary ⊆ b.domain → s.evaluate (a.overlay b) = s.evaluate b) ∧
    ((∀ v ∈ s.vocabulary, v ∉ b.domain) → s.evaluate (a.overlay b) = s.evaluate a) ∧
    ((∃ value, s.evaluate (a.overlay b) = .ok value) ↔
      ∀ v ∈ s.vocabulary, v ∈ a.domain ∨ v ∈ b.domain) :=
  ⟨⟨overlay_eq_add a b, get?_add a b⟩, overlay_assoc a b c, overlay_self a,
    ⟨empty_overlay a, overlay_empty a⟩, overlay_comm_iff, domain_overlay a b,
    Sentence.evaluate_overlay_of_subset, Sentence.evaluate_overlay_of_disjoint,
    Sentence.exists_evaluate_overlay_iff⟩

private def below : Assignment :=
  ofList [(⟨"hail", by decide⟩, true), (⟨"rain", by decide⟩, true)]

private def above : Assignment :=
  ofList [(⟨"snow", by decide⟩, true), (⟨"hail", by decide⟩, false)]

private def bothAbove : Sentence :=
  .disjunction (.atom ⟨"hail", by decide⟩) (.atom ⟨"snow", by decide⟩)

private def noneAbove : Sentence :=
  .implication (.atom ⟨"rain", by decide⟩) (.atom ⟨"wind", by decide⟩)

/-- Of two assignments that disagree about one variable, the second is seen by a sentence with its
variables, and the first by a sentence without them, which fails in the overlay as it does there. -/
theorem overlay_laws_for_disagreement :
    bothAbove.vocabulary ⊆ above.domain ∧
    bothAbove.evaluate (below.overlay above) = bothAbove.evaluate above ∧
    (∀ v ∈ noneAbove.vocabulary, v ∉ above.domain) ∧
    noneAbove.evaluate (below.overlay above) = .error ⟨⟨"wind", by decide⟩⟩ ∧
    below.overlay above ≠ above.overlay below := by
  have hall : bothAbove.vocabulary ⊆ above.domain := by decide
  have hnone : ∀ v ∈ noneAbove.vocabulary.toList, v ∉ above.domain := by decide
  obtain ⟨-, -, -, -, hcomm, -, hsecond, -⟩ := overlay_laws below above ∅ bothAbove
  obtain ⟨-, -, -, -, -, -, -, hfirst, -⟩ := overlay_laws below above ∅ noneAbove
  refine ⟨hall, hsecond hall, hnone, (hfirst hnone).trans rfl, fun h ↦ ?_⟩
  have hvalue := hcomm.mp h ⟨"hail", by decide⟩ (by decide) (by decide)
  exact absurd hvalue (by decide)

end Assignment

end Sentential

import Sentential.Proofs.Formula.Agreement
import Sentential.Sentence.Context

/-!
# Equivalence of sentences

A comparison looks at the assignments over the variables of its own two sentences. It says whether
they hold under the same valuations of all variables, so comparisons over different vocabularies
fit together. What a sentence with a hole says depends on whether what fills the hole holds; that a
filled set is listed in another order, or has fewer members, makes no difference.
-/

namespace Sentential

/-- Under a valuation a filled context depends on whether what fills it holds. -/
theorem Context.holds_fill_congr {valuation : Variable → Prop} {left right : Sentence}
    (h : left.Holds valuation ↔ right.Holds valuation) (context : Context) :
    (context.fill left).Holds valuation ↔ (context.fill right).Holds valuation := by
  induction context with
  | hole => exact h
  | negation target ih => exact not_congr ih
  | left connective l r ih => exact connective.holds_congr ih Iff.rfl
  | right connective l r ih => exact connective.holds_congr Iff.rfl ih
  | member m others ih =>
    -- The members are sorted after the hole is filled, but they all have to hold in any order.
    rw [fill, fill, Sentence.holds_setOf, Sentence.holds_setOf, List.forall_mem_cons,
      List.forall_mem_cons, ih]

namespace Formula

variable {left right : Sentence}

open Classical in
/-- Over vocabularies with the variables of both sentences, equivalence is decided as it is under
all valuations. -/
theorem isEquivalent_eq_ok_of_subset {vl vr : Vocabulary}
    (h : left.vocabulary ∪ right.vocabulary ⊆ vl ∪ vr) :
    isEquivalent (left.formulaOver vl) (right.formulaOver vr) =
      .ok (decide (∀ valuation, left.Holds valuation ↔ right.Holds valuation)) := by
  rw [isEquivalent, agreement_eq_ok (covers_of_mem_assignments h)]
  apply congrArg Except.ok
  rw [Bool.eq_iff_iff, Agreement.isComplete, List.isEmpty_iff, List.filter_eq_nil_iff,
    decide_eq_true_iff, ← forall_assignments_iff h Iff]
  simp only [Bool.not_eq_true', Bool.not_eq_false, decide_eq_true_iff]
  rfl

open Classical in
/-- Equivalence of sentences is decided as it is under all valuations. -/
theorem isEquivalent_eq_ok (left right : Sentence) :
    isEquivalent left.formula right.formula =
      .ok (decide (∀ valuation, left.Holds valuation ↔ right.Holds valuation)) :=
  isEquivalent_eq_ok_of_subset fun _ hv ↦ hv

/-- Sentences are equivalent exactly when they hold under the same valuations. -/
theorem isEquivalent_eq_true_iff :
    isEquivalent left.formula right.formula = .ok true ↔
      ∀ valuation, left.Holds valuation ↔ right.Holds valuation := by
  classical
  rw [isEquivalent_eq_ok, Except.ok.injEq, decide_eq_true_iff]

/-- Being found equivalent is an equivalence relation between sentences, and in every context
equivalent sentences may replace each other. -/
theorem isEquivalent_congruence :
    Equivalence (fun left right : Sentence ↦
      isEquivalent left.formula right.formula = .ok true) ∧
    ∀ (context : Context) (left right : Sentence),
      isEquivalent left.formula right.formula = .ok true →
      isEquivalent (context.fill left).formula (context.fill right).formula = .ok true := by
  simp only [isEquivalent_eq_true_iff]
  refine ⟨⟨fun s valuation ↦ Iff.rfl, fun h valuation ↦ (h valuation).symm,
    fun h h' valuation ↦ (h valuation).trans (h' valuation)⟩, ?_⟩
  intro context left right h valuation
  exact context.holds_fill_congr (h valuation)

private def plain : Sentence := .atom ⟨"u", by decide⟩

private def padded : Sentence :=
  .conjunction plain (.disjunction (.atom ⟨"v", by decide⟩) (.negation (.atom ⟨"v", by decide⟩)))

/-- A set of two members is equivalent to the set of one that results when the first is replaced
by an equivalent sentence of fewer variables, but not so with a part that is not equivalent. -/
theorem isEquivalent_congruence_collapsing :
    isEquivalent padded.formula plain.formula = .ok true ∧
    (Context.member .hole [plain]).fill plain = .set [plain] ∧
    ((Context.member .hole [plain]).fill padded).children.length = 2 ∧
    isEquivalent ((Context.member .hole [plain]).fill padded).formula
      (Sentence.set [plain]).formula = .ok true ∧
    isEquivalent (Sentence.negation plain).formula plain.formula = .ok false ∧
    isEquivalent ((Context.member .hole [plain]).fill (.negation plain)).formula
      (Sentence.set [plain]).formula = .ok false := by
  have hpart : isEquivalent padded.formula plain.formula = .ok true := rfl
  exact ⟨hpart, rfl, rfl, isEquivalent_congruence.2 (.member .hole [plain]) padded plain hpart,
    rfl, rfl⟩

end Formula

end Sentential

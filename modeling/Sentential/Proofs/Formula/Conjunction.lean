import Sentential.Proofs.Formula.Equivalence

/-!
# Sets as conjunctions

A set says what the conjunction of the sentences says that it was made of. The conjunction keeps
their order and repetition, and the set does not; a set among them may be taken apart, also if it
has no members. Which sentences are entailed is the same.
-/

namespace Sentential

namespace Sentence

/-- The conjunction of sentences in the order in which they are listed, where each further sentence
is joined to the conjunction of all before it. -/
def conjoined (first : Sentence) (rest : List Sentence) : Sentence := rest.foldl conjunction first

/-- A conjunction of sentences holds when all of them do. -/
theorem holds_conjoined {valuation : Variable → Prop} {first : Sentence} {rest : List Sentence} :
    (conjoined first rest).Holds valuation ↔ ∀ s ∈ first :: rest, s.Holds valuation := by
  induction rest generalizing first with
  | nil => exact List.forall_mem_singleton.symm
  | cons s rest ih =>
    rw [conjoined, List.foldl_cons, ← conjoined, ih, List.forall_mem_cons, List.forall_mem_cons,
      List.forall_mem_cons, ← and_assoc]
    rfl

/-- A set among the sentences that a set is made of holds when its members do. -/
theorem holds_setOf_set {valuation : Variable → Prop} {before members after : List Sentence} :
    (setOf (before ++ set members :: after)).Holds valuation ↔
      (setOf (before ++ members ++ after)).Holds valuation := by
  rw [holds_setOf, holds_setOf, List.forall_mem_append, List.forall_mem_append,
    List.forall_mem_append, List.forall_mem_cons, Holds, allHold_iff, and_assoc]

end Sentence

namespace Formula

open Sentence

/-- Sentences that are equivalent, and entail the same. -/
structure SayTheSame (left right : Sentence) : Prop where
  isEquivalent_eq : isEquivalent left.formula right.formula = .ok true
  entails_eq : ∀ s : Sentence, entails left.formula s.formula = entails right.formula s.formula

/-- Sentences that hold under the same valuations say the same. -/
theorem sayTheSame_of_holds_iff {left right : Sentence}
    (h : ∀ valuation, left.Holds valuation ↔ right.Holds valuation) : SayTheSame left right where
  isEquivalent_eq := isEquivalent_eq_true_iff.mpr h
  entails_eq s := by
    classical
    rw [entails_eq_ok, entails_eq_ok, Except.ok.injEq, decide_eq_decide]
    exact forall_congr' fun valuation ↦ imp_congr_left (h valuation)

/-- The set of some sentences, if there are any, says what their conjunction says in the order in
which they are listed, repetitions included. A set among them may be replaced by its members, even
if it has none. -/
theorem setOf_says_conjunction :
    (∀ first rest, SayTheSame (setOf (first :: rest)) (conjoined first rest)) ∧
    ∀ before members after, SayTheSame (setOf (before ++ set members :: after))
      (setOf (before ++ members ++ after)) := by
  refine ⟨fun first rest ↦ ?_, fun before members after ↦ ?_⟩
  · apply sayTheSame_of_holds_iff
    intro valuation
    rw [holds_setOf, holds_conjoined]
  · apply sayTheSame_of_holds_iff
    intro valuation
    exact holds_setOf_set

end Formula

end Sentential

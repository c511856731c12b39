import Sentential.Mendelson.Derivation
import Sentential.Proofs.Formula.Entailment
import Sentential.Proofs.Mendelson.Search

/-!
# Soundness of derivations

Every rule keeps to what holds, so everything that is derived from premises is entailed by them.
What the search finds is a derivation exactly where the antecedent of the implication that it
eliminates is a premise, which it does not ask for.
-/

namespace Sentential

namespace Mendelson

open Sentence Formula

/-- A rule that is allowed gives a sentence that holds where the known sentences do. -/
theorem Rule.IsAllowed.holds {known : List Sentence} {rule : Rule} {s : Sentence}
    (ha : rule.IsAllowed known) (hd : rule.derived? = some s) {valuation : Variable → Prop}
    (hk : ∀ t ∈ known, t.Holds valuation) : s.Holds valuation := by
  cases rule with
  | implicationElimination implication =>
    obtain ⟨antecedent, rfl⟩ := Rule.derived?_implicationElimination.mp hd
    have himplies : antecedent.Holds valuation → s.Holds valuation := hk _ ha.1
    have hantecedent : antecedent.Holds valuation := hk _ ha.2
    exact himplies hantecedent
  | implicationDistribution a b c =>
    injection hd with hd
    rw [← hd]
    intro habc hab ha
    exact habc ha (hab ha)
  | implicationCreation a b =>
    injection hd with hd
    rw [← hd]
    intro ha _
    exact ha
  | contradictionRealisation a b =>
    injection hd with hd
    rw [← hd]
    intro hb hnb
    exact Classical.byContradiction fun hna ↦ hnb hna (hb hna)

namespace Derivation

variable {premises known : List Sentence} {rules : List Rule}

/-- All that is known in a derivation holds where the premises do. -/
theorem holds (h : Derivation premises rules known) {valuation : Variable → Prop}
    (hp : ∀ s ∈ premises, s.Holds valuation) : ∀ s ∈ known, s.Holds valuation := by
  induction h with
  | start => exact hp
  | step _ ha hd ih =>
    intro t ht
    rcases List.mem_cons.mp ht with rfl | ht
    · exact ha.holds hd ih
    · exact ih t ht

/-- The premises entail all that is known in a derivation. -/
theorem entails (h : Derivation premises rules known) {s : Sentence} (hs : s ∈ known) :
    (setOf premises).formula.entails s.formula = .ok true := by
  rw [entails_eq_true_iff]
  intro valuation hp
  exact h.holds (holds_setOf.mp hp) s hs

/-- Without rules only the premises are known. -/
theorem nil_iff : Derivation premises [] known ↔ known = premises := by
  constructor
  · intro h
    generalize hr : ([] : List Rule) = rules at h
    cases h with
    | start => rfl
    | step => exact absurd hr.symm (List.append_ne_nil_of_right_ne_nil _ (List.cons_ne_nil _ _))
  · rintro rfl
    exact .start

/-- A derivation of one step applies a rule that the premises allow. -/
theorem singleton_iff {rule : Rule} :
    Derivation premises [rule] known ↔
      rule.IsAllowed premises ∧ ∃ s, rule.derived? = some s ∧ known = s :: premises := by
  constructor
  · intro h
    generalize hr : [rule] = rules at h
    cases h with
    | start => cases hr
    | step h ha hd =>
      have hr : [] ++ [rule] = _ := hr
      obtain ⟨hnil, hrule⟩ := List.append_inj' hr rfl
      rw [← hnil, nil_iff] at h
      injection hrule with hrule
      rw [hrule, ← h]
      exact ⟨ha, _, hd, rfl⟩
  · rintro ⟨ha, s, hd, rfl⟩
    exact .step .start ha hd

end Derivation

namespace Problem

/-- A proof that the search finds eliminates the implication with the least antecedent among
those premises whose consequent is the conclusion. It is a derivation, and then the premises
entail the conclusion, exactly if that antecedent is a premise as well. -/
theorem derivation_of_prove_iff {premises : List Sentence} {conclusion : Sentence}
    {rules : List Rule} (h : (ofList premises conclusion).prove = .ok rules) (hne : rules ≠ []) :
    ∃ antecedent,
      rules = [.implicationElimination (.implication antecedent conclusion)] ∧
      .implication antecedent conclusion ∈ premises ∧
      (∀ other, .implication other conclusion ∈ premises → (compare antecedent other).isLE) ∧
      (Derivation premises rules (conclusion :: premises) ↔ antecedent ∈ premises) ∧
      (antecedent ∈ premises →
        (setOf premises).formula.entails conclusion.formula = .ok true) := by
  obtain ⟨rule, rfl, hs⟩ := exists_step_of_prove h hne
  obtain ⟨antecedent, rfl, hm, hle⟩ := step?_eq_some_iff.mp hs
  have hmem (s : Sentence) : s ∈ (ofList premises conclusion).premises ↔ s ∈ premises :=
    SortedSet.mem_ofList
  simp only [hmem] at hm hle
  have hderivation : Derivation premises
      [.implicationElimination (.implication antecedent conclusion)] (conclusion :: premises) ↔
        antecedent ∈ premises := by
    rw [Derivation.singleton_iff]
    constructor
    · rintro ⟨hallowed, -⟩
      exact hallowed.2
    · intro ha
      exact ⟨⟨hm, ha⟩, conclusion, rfl, rfl⟩
  refine ⟨antecedent, rfl, hm, hle, hderivation, fun ha ↦ ?_⟩
  exact (hderivation.mpr ha).entails List.mem_cons_self

private def atomP : Sentence := .atom ⟨"p", by decide⟩

private def atomQ : Sentence := .atom ⟨"q", by decide⟩

/-- With the antecedent among the premises the search finds a derivation. -/
theorem derivation_of_prove_with_antecedent :
    (ofList [.implication atomP atomQ, atomP] atomQ).prove =
      .ok [.implicationElimination (.implication atomP atomQ)] ∧
    [Rule.implicationElimination (.implication atomP atomQ)] ≠ [] ∧
    Derivation [.implication atomP atomQ, atomP]
      [.implicationElimination (.implication atomP atomQ)]
      [atomQ, .implication atomP atomQ, atomP] ∧
    (setOf [.implication atomP atomQ, atomP]).formula.entails atomQ.formula = .ok true := by
  have hprove : (ofList [.implication atomP atomQ, atomP] atomQ).prove =
      .ok [.implicationElimination (.implication atomP atomQ)] := rfl
  have hne : [Rule.implicationElimination (.implication atomP atomQ)] ≠ [] :=
    List.cons_ne_nil _ _
  obtain ⟨antecedent, hrules, -, -, hderivation, hentails⟩ :=
    derivation_of_prove_iff hprove hne
  simp only [List.cons.injEq, Rule.implicationElimination.injEq, Sentence.binary.injEq] at hrules
  obtain rfl : atomP = antecedent := hrules.1.2.1
  have hmem : atomP ∈ [.implication atomP atomQ, atomP] := by simp
  exact ⟨hprove, hne, hderivation.mpr hmem, hentails hmem⟩

/-- Without the antecedent among the premises the search still eliminates the implication, though
the conclusion is not entailed. -/
theorem prove_without_antecedent :
    (ofList [.implication atomP atomQ] atomQ).prove =
      .ok [.implicationElimination (.implication atomP atomQ)] ∧
    atomP ∉ [.implication atomP atomQ] ∧
    (setOf [.implication atomP atomQ]).formula.entails atomQ.formula = .ok false :=
  ⟨rfl, by simp [atomP], rfl⟩

end Problem

end Mendelson

end Sentential

import Sentential.Proofs.Mendelson.Soundness

/-!
# Derivations within the system

An axiom is a sentence of the system exactly if it is an axiom for sentences of the system. So what
is derived from sentences of the system is one too, as long as the axioms are.
-/

namespace Sentential

namespace Sentence

/-- A negation is of the system if its target is. -/
@[simp] theorem isMendelson_negation (target : Sentence) :
    (negation target).isMendelson = target.isMendelson := rfl

/-- An implication is of the system if both its parts are. -/
@[simp] theorem isMendelson_implication (antecedent consequent : Sentence) :
    (implication antecedent consequent).isMendelson =
      (antecedent.isMendelson && consequent.isMendelson) := by
  rw [isMendelson, decide_eq_true rfl, Bool.true_and]

end Sentence

namespace Mendelson

open Sentence

namespace Rule

/-- The rule needs no known sentences. -/
def IsAxiom : Rule → Prop
  | implicationElimination _ => False
  | implicationDistribution .. | implicationCreation .. | contradictionRealisation .. => True

/-- An axiom is a sentence, which is of the system exactly if all that it is applied to is. -/
theorem IsAxiom.exists_derived? {rule : Rule} (h : rule.IsAxiom) :
    ∃ s, rule.derived? = some s ∧
      (s.isMendelson = true ↔ ∀ a ∈ rule.arguments, a.isMendelson = true) := by
  cases rule with
  | implicationElimination implication => exact h.elim
  | implicationDistribution a b c =>
    refine ⟨_, rfl, ?_⟩
    simp only [isMendelson_implication, arguments, List.forall_mem_cons, Bool.and_eq_true]
    constructor
    · rintro ⟨⟨ha, hb, hc⟩, -⟩
      exact ⟨ha, hb, hc, List.forall_mem_nil _⟩
    · rintro ⟨ha, hb, hc, -⟩
      exact ⟨⟨ha, hb, hc⟩, ⟨ha, hb⟩, ha, hc⟩
  | implicationCreation a b =>
    refine ⟨_, rfl, ?_⟩
    simp only [isMendelson_implication, arguments, List.forall_mem_cons, Bool.and_eq_true]
    constructor
    · rintro ⟨ha, hb, -⟩
      exact ⟨ha, hb, List.forall_mem_nil _⟩
    · rintro ⟨ha, hb, -⟩
      exact ⟨ha, hb, ha⟩
  | contradictionRealisation a b =>
    refine ⟨_, rfl, ?_⟩
    simp only [isMendelson_implication, isMendelson_negation, arguments, List.forall_mem_cons,
      Bool.and_eq_true]
    constructor
    · rintro ⟨⟨ha, hb⟩, -⟩
      exact ⟨ha, hb, List.forall_mem_nil _⟩
    · rintro ⟨ha, hb, -⟩
      exact ⟨⟨ha, hb⟩, ⟨ha, hb⟩, ha⟩

/-- A rule that is allowed gives a sentence of the system where the known sentences, and those that
an axiom is applied to, are of the system. -/
theorem IsAllowed.isMendelson {known : List Sentence} {rule : Rule} {s : Sentence}
    (ha : rule.IsAllowed known) (hd : rule.derived? = some s)
    (hk : ∀ t ∈ known, t.isMendelson = true)
    (hargs : rule.IsAxiom → ∀ a ∈ rule.arguments, a.isMendelson = true) :
    s.isMendelson = true := by
  by_cases hax : rule.IsAxiom
  · obtain ⟨t, ht, hiff⟩ := hax.exists_derived?
    obtain rfl : t = s := Option.some.inj (ht.symm.trans hd)
    exact hiff.mpr (hargs hax)
  · cases rule with
    | implicationElimination implication =>
      obtain ⟨antecedent, rfl⟩ := derived?_implicationElimination.mp hd
      have himplication := hk _ ha.1
      rw [isMendelson_implication, Bool.and_eq_true] at himplication
      exact himplication.2
    | implicationDistribution | implicationCreation | contradictionRealisation =>
      exact absurd trivial hax

end Rule

namespace Derivation

variable {premises known : List Sentence} {rules : List Rule}

/-- What is known in a derivation are the premises and what the rules derive, the last one first. -/
theorem known_eq (h : Derivation premises rules known) :
    known = (rules.filterMap Rule.derived?).reverse ++ premises := by
  induction h with
  | start => rfl
  | step _ _ hd ih =>
    rw [List.filterMap_append, List.filterMap_cons_some hd, List.filterMap_nil,
      List.reverse_append, ih]
    rfl

/-- All rules of a derivation derive something. -/
theorem exists_derived? (h : Derivation premises rules known) :
    ∀ rule ∈ rules, ∃ s, rule.derived? = some s := by
  induction h with
  | start => exact List.forall_mem_nil _
  | step _ _ hd ih =>
    rw [List.forall_mem_append, List.forall_mem_singleton]
    exact ⟨ih, _, hd⟩

/-- All that is known in a derivation is of the system if the premises and what the axioms are
applied to is. -/
theorem isMendelson (h : Derivation premises rules known)
    (hp : ∀ s ∈ premises, s.isMendelson = true)
    (hargs : ∀ rule ∈ rules, rule.IsAxiom → ∀ a ∈ rule.arguments, a.isMendelson = true) :
    ∀ s ∈ known, s.isMendelson = true := by
  induction h with
  | start => exact hp
  | step _ ha hd ih =>
    rw [List.forall_mem_append, List.forall_mem_singleton] at hargs
    have hk := ih hargs.1
    exact List.forall_mem_cons.mpr ⟨ha.isMendelson hd hk hargs.2, hk⟩

/-- Every step of a derivation derives a sentence, which the premises entail. If the premises and
what the axioms are applied to are sentences of the system, so is all that is derived; and an axiom
is a sentence of the system only if all that it is applied to is. -/
theorem step_entailed (h : Derivation premises rules known) :
    (∀ rule ∈ rules, ∃ s, rule.derived? = some s ∧
      (setOf premises).formula.entails s.formula = .ok true) ∧
    ((∀ s ∈ premises, s.isMendelson = true) →
      (∀ rule ∈ rules, rule.IsAxiom → ∀ a ∈ rule.arguments, a.isMendelson = true) →
      ∀ rule ∈ rules, ∀ s, rule.derived? = some s → s.isMendelson = true) ∧
    (∀ rule : Rule, rule.IsAxiom → ∃ s, rule.derived? = some s ∧
      (s.isMendelson = true ↔ ∀ a ∈ rule.arguments, a.isMendelson = true)) := by
  have hknown : ∀ rule ∈ rules, ∀ s, rule.derived? = some s → s ∈ known := by
    intro rule hm s hd
    rw [h.known_eq, List.mem_append, List.mem_reverse, List.mem_filterMap]
    exact .inl ⟨rule, hm, hd⟩
  refine ⟨fun rule hm ↦ ?_, fun hp hargs rule hm s hd ↦ ?_, fun rule hax ↦ hax.exists_derived?⟩
  · obtain ⟨s, hd⟩ := h.exists_derived? rule hm
    exact ⟨s, hd, h.entails (hknown rule hm s hd)⟩
  · exact h.isMendelson hp hargs s (hknown rule hm s hd)

private def denied : Sentence := .negation (.atom ⟨"s", by decide⟩)

private def absurdity : Sentence := .implication (.atom ⟨"t", by decide⟩) (.atom ⟨"s", by decide⟩)

private def affirming : Sentence := .implication (.negation denied) absurdity

private def refuting : Sentence := .implication (.negation denied) (.negation absurdity)

private def refutation : List Rule :=
  [.contradictionRealisation denied absurdity,
    .implicationElimination (.implication affirming (.implication refuting denied)),
    .implicationElimination (.implication refuting denied)]

/-- A sentence whose negation has two contradicting consequences is derived in three steps. That it
has the first of them does not entail the sentence. -/
theorem step_entailed_by_contradiction :
    Derivation [affirming, refuting] refutation
      [denied, .implication refuting denied,
        .implication affirming (.implication refuting denied), affirming, refuting] ∧
    (setOf [affirming, refuting]).formula.entails denied.formula = .ok true ∧
    denied.isMendelson = true ∧
    (setOf [affirming]).formula.entails denied.formula = .ok false := by
  have haxiom : Derivation [affirming, refuting]
      ([] ++ [.contradictionRealisation denied absurdity])
      (.implication affirming (.implication refuting denied) :: [affirming, refuting]) :=
    .step .start trivial rfl
  have hfirst : Derivation _ (_ ++ [.implicationElimination
      (.implication affirming (.implication refuting denied))])
      (.implication refuting denied :: _) :=
    .step haxiom ⟨.head _, .tail _ (.head _)⟩ rfl
  have hderivation : Derivation [affirming, refuting] refutation (denied :: _) :=
    .step hfirst ⟨.head _, .tail _ (.tail _ (.tail _ (.head _)))⟩ rfl
  obtain ⟨hentails, hmendelson, -⟩ := step_entailed hderivation
  have hlast : .implicationElimination (.implication refuting denied) ∈ refutation :=
    .tail _ (.tail _ (.head _))
  have haxioms : ∀ rule ∈ refutation, rule.IsAxiom →
      ∀ a ∈ rule.arguments, a.isMendelson = true := by
    simp only [refutation, List.forall_mem_cons]
    exact ⟨fun _ ↦ by decide, False.elim, False.elim, List.forall_mem_nil _⟩
  obtain ⟨s, hs, hentailed⟩ := hentails _ hlast
  obtain rfl : denied = s := Option.some.inj hs
  exact ⟨hderivation, hentailed, hmendelson (by decide) haxioms _ hlast denied rfl, rfl⟩

end Derivation

end Mendelson

end Sentential

import Sentential.Proofs.Mendelson.Search

/-!
# What the search answers

The search answers a problem in one of five ways: its conclusion is not of the system, or a premise
is not, or the conclusion is given, or it is the consequent of a premise, or it is not. The first of
these that applies is its answer. It depends on which sentences are premises, and not on how they
are listed. An implication is eliminated whether or not its antecedent is a premise too, so this
says what is answered and not that an answer is a derivation.
-/

namespace Sentential

namespace Sentence

/-- The main form of a sentence is one of Mendelson's system. -/
def IsPrimitive : Sentence → Prop
  | atom _ | negation _ => True
  | binary connective _ _ => connective = .implication
  | set _ => False

/-- Every part of a sentence is an atom, a negation or an implication. -/
def IsAdmissible (s : Sentence) : Prop := ∀ part ∈ s.parts, part.IsPrimitive

/-- The sentences of the system are the admissible ones. -/
theorem isMendelson_iff {s : Sentence} : s.isMendelson = true ↔ s.IsAdmissible := by
  induction s with
  | atom v =>
    rw [IsAdmissible, parts, List.forall_mem_singleton]
    exact iff_of_true rfl trivial
  | negation target ih =>
    rw [IsAdmissible, parts, List.forall_mem_cons, isMendelson, ih]
    exact (and_iff_right trivial).symm
  | binary connective left right ihl ihr =>
    rw [IsAdmissible, parts, List.forall_mem_cons, List.forall_mem_append, isMendelson,
      Bool.and_eq_true, Bool.and_eq_true, decide_eq_true_iff, ihl, ihr, and_assoc]
    rfl
  | set members =>
    rw [IsAdmissible, parts, List.forall_mem_cons]
    exact iff_of_false Bool.false_ne_true fun h ↦ h.1

end Sentence

namespace Mendelson

namespace Problem

/-- The conclusion and all premises are admissible. -/
structure AreAdmissible (premises : List Sentence) (conclusion : Sentence) : Prop where
  conclusion : conclusion.IsAdmissible
  premises : ∀ s ∈ premises, s.IsAdmissible

/-- What the search answers to a problem. -/
inductive IsAnswer (premises : List Sentence) (conclusion : Sentence) :
    Except ProblemError (List Rule) → Prop where
  /-- The conclusion is not admissible. -/
  | conclusionOutside : ¬conclusion.IsAdmissible →
      IsAnswer premises conclusion (.error (.conclusion conclusion))
  /-- The conclusion is admissible, but a premise is not; the least such premise is named. -/
  | premiseOutside {s : Sentence} : conclusion.IsAdmissible → s ∈ premises → ¬s.IsAdmissible →
      (∀ t ∈ premises, ¬t.IsAdmissible → (compare s t).isLE) →
      IsAnswer premises conclusion (.error (.premise s))
  /-- The conclusion is a premise, and the proof is empty. -/
  | given : AreAdmissible premises conclusion → conclusion ∈ premises →
      IsAnswer premises conclusion (.ok [])
  /-- An implication of the conclusion is a premise; the one with the least antecedent is
  eliminated, whatever is known of this. -/
  | step {antecedent : Sentence} : AreAdmissible premises conclusion → conclusion ∉ premises →
      .implication antecedent conclusion ∈ premises →
      (∀ other, .implication other conclusion ∈ premises → (compare antecedent other).isLE) →
      IsAnswer premises conclusion
        (.ok [.implicationElimination (.implication antecedent conclusion)])
  /-- There is no such premise, and nothing is found. -/
  | notFound : AreAdmissible premises conclusion → conclusion ∉ premises →
      (∀ antecedent, .implication antecedent conclusion ∉ premises) →
      IsAnswer premises conclusion (.ok [])

variable {premises : List Sentence} {conclusion : Sentence}

/-- A problem has no error exactly if its conclusion and premises are admissible. -/
theorem error?_ofList_eq_none_iff :
    (ofList premises conclusion).error? = none ↔ AreAdmissible premises conclusion := by
  simp only [error?_eq_none_iff, mem_premises_ofList, conclusion_ofList, Sentence.isMendelson_iff]
  exact ⟨fun h ↦ ⟨h.1, h.2⟩, fun h ↦ ⟨h.conclusion, h.premises⟩⟩

/-- A conclusion that is not admissible is at fault, whatever the premises are. -/
theorem error?_of_not_isAdmissible (h : ¬conclusion.IsAdmissible) :
    (ofList premises conclusion).error? = some (.conclusion conclusion) := by
  rw [← Sentence.isMendelson_iff] at h
  rw [error?, conclusion_ofList, if_neg h]

/-- Where the conclusion is admissible, the least premise that is not is at fault. -/
theorem error?_of_isAdmissible (h : conclusion.IsAdmissible) {e : ProblemError} :
    (ofList premises conclusion).error? = some e ↔
      ∃ s, e = .premise s ∧ s ∈ premises ∧ ¬s.IsAdmissible ∧
        ∀ t ∈ premises, ¬t.IsAdmissible → (compare s t).isLE := by
  rw [error?, conclusion_ofList, if_pos (Sentence.isMendelson_iff.mpr h), Option.map_eq_some_iff]
  refine exists_congr fun s ↦ ?_
  simp only [Ascending.find?_eq_some_iff (ofList premises conclusion).premises.ascending,
    SortedSet.mem_toList, mem_premises_ofList, Bool.not_eq_true', ← Bool.not_eq_true,
    Sentence.isMendelson_iff]
  rw [and_comm, eq_comm]

/-- Where an answer is described, the search gives it. -/
theorem IsAnswer.prove_eq {answer : Except ProblemError (List Rule)}
    (h : IsAnswer premises conclusion answer) : (ofList premises conclusion).prove = answer := by
  cases h with
  | conclusionOutside hc => rw [Problem.prove_eq, error?_of_not_isAdmissible hc]
  | premiseOutside hc hm hs hle =>
    rw [Problem.prove_eq, (error?_of_isAdmissible hc).mpr ⟨_, rfl, hm, hs, hle⟩]
  | given ha hg =>
    exact prove_eq_ok_iff.mpr
      ⟨error?_ofList_eq_none_iff.mpr ha, .inl ⟨mem_premises_ofList.mpr hg, rfl⟩⟩
  | step ha hg hm hle =>
    have hstep := step?_eq_some_iff.mpr
      ⟨_, rfl, mem_premises_ofList.mpr hm, fun other ho ↦ hle other (mem_premises_ofList.mp ho)⟩
    refine prove_eq_ok_iff.mpr
      ⟨error?_ofList_eq_none_iff.mpr ha, .inr ⟨mt mem_premises_ofList.mp hg, ?_⟩⟩
    rw [hstep]
    rfl
  | notFound ha hg hnone =>
    refine prove_eq_ok_iff.mpr
      ⟨error?_ofList_eq_none_iff.mpr ha, .inr ⟨mt mem_premises_ofList.mp hg, ?_⟩⟩
    rw [step?_eq_none_iff.mpr fun antecedent ↦ mt mem_premises_ofList.mp (hnone antecedent)]
    rfl

/-- Some answer is described for every problem. -/
theorem exists_isAnswer (premises : List Sentence) (conclusion : Sentence) :
    ∃ answer, IsAnswer premises conclusion answer := by
  by_cases hc : conclusion.IsAdmissible
  · cases he : (ofList premises conclusion).error? with
    | some e =>
      obtain ⟨s, -, hm, hs, hle⟩ := (error?_of_isAdmissible hc).mp he
      exact ⟨_, .premiseOutside hc hm hs hle⟩
    | none =>
      have ha := error?_ofList_eq_none_iff.mp he
      by_cases hg : conclusion ∈ premises
      · exact ⟨_, .given ha hg⟩
      · cases hs : (ofList premises conclusion).step? with
        | some rule =>
          obtain ⟨antecedent, -, hm, hle⟩ := step?_eq_some_iff.mp hs
          simp only [mem_premises_ofList, conclusion_ofList] at hm hle
          exact ⟨_, .step ha hg hm hle⟩
        | none =>
          have hnone := step?_eq_none_iff.mp hs
          simp only [mem_premises_ofList, conclusion_ofList] at hnone
          exact ⟨_, .notFound ha hg hnone⟩
  · exact ⟨_, .conclusionOutside hc⟩

/-- The search gives the answer that is described, and no other. -/
theorem prove_eq_iff {answer : Except ProblemError (List Rule)} :
    (ofList premises conclusion).prove = answer ↔ IsAnswer premises conclusion answer := by
  refine ⟨?_, IsAnswer.prove_eq⟩
  rintro rfl
  obtain ⟨answer, h⟩ := exists_isAnswer premises conclusion
  rwa [h.prove_eq]

/-- A rule of an answer derives the conclusion, and only admissible problems have one. -/
theorem IsAnswer.derived?_of_mem {rules : List Rule} {rule : Rule}
    (h : IsAnswer premises conclusion (.ok rules)) (hm : rule ∈ rules) :
    AreAdmissible premises conclusion ∧ rule.derived? = some conclusion := by
  cases h with
  | given | notFound => exact absurd hm List.not_mem_nil
  | step ha =>
    rw [List.mem_singleton.mp hm]
    exact ⟨ha, rfl⟩

/-- With what was to be derived among the premises, there is nothing more to do. -/
theorem AreAdmissible.isAnswer_cons (h : AreAdmissible premises conclusion) :
    IsAnswer (conclusion :: premises) conclusion (.ok []) :=
  .given ⟨h.conclusion, List.forall_mem_cons.mpr ⟨h.conclusion, h.premises⟩⟩ List.mem_cons_self

/-- The search answers every problem in the first of the five ways that applies. What a step that it
gives derives is the conclusion; with this as a further premise, the answer is the empty proof. The
premises may be listed in any order and more than once. -/
theorem prove_outcome (premises : List Sentence) (conclusion : Sentence) :
    (∀ answer, (ofList premises conclusion).prove = answer ↔
      IsAnswer premises conclusion answer) ∧
    (∀ rules, (ofList premises conclusion).prove = .ok rules → ∀ rule ∈ rules,
      rule.derived? = some conclusion ∧
      ∀ s, rule.derived? = some s → (ofList (s :: premises) conclusion).prove = .ok []) ∧
    ∀ premises', (∀ s, s ∈ premises ↔ s ∈ premises') →
      (ofList premises' conclusion).prove = (ofList premises conclusion).prove := by
  refine ⟨fun answer ↦ prove_eq_iff, fun rules h rule hm ↦ ?_, fun premises' h ↦ ?_⟩
  · obtain ⟨hadmissible, hderived⟩ := (prove_eq_iff.mp h).derived?_of_mem hm
    refine ⟨hderived, fun s hs ↦ ?_⟩
    obtain rfl : conclusion = s := Option.some.inj (hderived.symm.trans hs)
    exact hadmissible.isAnswer_cons.prove_eq
  · rw [ofList, ofList, SortedSet.ofList_congr h]

private def goal : Sentence := .atom ⟨"r", by decide⟩

private def early : Sentence := .implication (.atom ⟨"i", by decide⟩) goal

private def late : Sentence := .implication (.negation (.atom ⟨"j", by decide⟩)) goal

/-- Of two implications, the later of which is listed first and twice, the one with the lesser
antecedent is eliminated; listed otherwise they give the same, and with the conclusion nothing. -/
theorem prove_outcome_of_two_steps :
    (ofList [late, early, late] goal).prove = .ok [.implicationElimination early] ∧
    IsAnswer [late, early, late] goal (.ok [.implicationElimination early]) ∧
    Rule.derived? (.implicationElimination early) = some goal ∧
    (ofList [goal, late, early, late] goal).prove = .ok [] ∧
    (∀ s, s ∈ [late, early, late] ↔ s ∈ [early, late]) ∧
    (ofList [early, late] goal).prove = .ok [.implicationElimination early] := by
  obtain ⟨hanswer, hsteps, hlisted⟩ := prove_outcome [late, early, late] goal
  have hprove : (ofList [late, early, late] goal).prove =
      .ok [.implicationElimination early] := rfl
  have hsame : ∀ s, s ∈ [late, early, late] ↔ s ∈ [early, late] := by simp [or_comm]
  obtain ⟨hderived, hmore⟩ := hsteps _ hprove _ (List.mem_singleton_self _)
  exact ⟨hprove, (hanswer _).mp hprove, hderived, hmore goal hderived, hsame,
    (hlisted _ hsame).trans hprove⟩

end Problem

end Mendelson

end Sentential

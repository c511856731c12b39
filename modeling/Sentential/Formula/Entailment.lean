import Sentential.Formula.Agreement

/-!
# Entailment

A premise entails a conclusion when no assignment over their joint vocabulary makes the premise
true and the conclusion false. The assignments are searched in ascending order, the conclusion
is evaluated only where the premise is true, and the search stops at the first counterexample,
which it tells.
-/

namespace Sentential

namespace Formula

/-- Whether an assignment makes the premise true and the conclusion false. The conclusion is
not evaluated where the premise is false. -/
def refutedUnder (premise conclusion : Formula) (a : Assignment) :
    Except UnassignedVariable Bool := do
  if ← premise.evaluate a then return !(← conclusion.evaluate a) else return false

/-- Whether none of some assignments makes the premise true and the conclusion false. The first one
that does is told, and ends the search. -/
def entailsAmong (premise conclusion : Formula) : List Assignment → Account UnassignedVariable Bool
  | [] => return true
  | a :: assignments =>
    match refutedUnder premise conclusion a with
    | .error e => .fail e
    | .ok true => do
      Account.tell (.refuted a)
      return false
    | .ok false => entailsAmong premise conclusion assignments

/-- List the assignments over the joint vocabulary, and search them for a counterexample. -/
def entailsAccount (premise conclusion : Formula) : Account UnassignedVariable Bool := do
  let assignments ← (premise.vocabulary ∪ conclusion.vocabulary).assignmentsAccount
  entailsAmong premise conclusion assignments

/-- Whether every assignment that makes the premise true makes the conclusion true. -/
def entails (premise conclusion : Formula) : Except UnassignedVariable Bool :=
  (entailsAccount premise conclusion).result

/-- The first assignment that makes the premise true and the conclusion false. -/
def counterexample? (premise conclusion : Formula) :
    Except UnassignedVariable (Option Assignment) :=
  (jointAssignments premise conclusion).findM? (refutedUnder premise conclusion)

/-- What the search says and tells is whether there is a first counterexample, and which. -/
theorem entailsAmong_findM? (premise conclusion : Formula) (assignments : List Assignment) :
    entailsAmong premise conclusion assignments =
      match assignments.findM? (refutedUnder premise conclusion) with
      | .error e => ⟨.error e, []⟩
      | .ok none => ⟨.ok true, []⟩
      | .ok (some a) => ⟨.ok false, [.refuted a]⟩ := by
  induction assignments with
  | nil => rfl
  | cons a assignments ih =>
    rw [entailsAmong, List.findM?]
    cases refutedUnder premise conclusion a with
    | error e => rfl
    | ok refuted =>
      cases refuted with
      | false => exact ih
      | true => rfl

/-- The answer is whether there is no counterexample. -/
theorem entails_eq (premise conclusion : Formula) :
    entails premise conclusion = do return (← counterexample? premise conclusion).isNone := by
  rw [entails, entailsAccount, Vocabulary.result_bind_assignmentsAccount, entailsAmong_findM?,
    counterexample?, jointAssignments]
  cases (premise.vocabulary ∪ conclusion.vocabulary).assignments.findM?
    (refutedUnder premise conclusion) with
  | error e => rfl
  | ok found => cases found <;> rfl

end Formula

end Sentential

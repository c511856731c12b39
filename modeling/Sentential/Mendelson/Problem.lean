import Sentential.Account

/-!
# Proof problems

A problem asks for a proof of a conclusion from premises. The search looks for a proof of at
most one step: the conclusion is a premise already, or it is the consequent of an implication
among the premises. Of several such implications the first in structural order is taken, and
whether its antecedent is at hand is not asked. An empty proof is also the answer where none is
found.
-/

namespace Sentential

/-- Whether a sentence is an implication. -/
def Sentence.isImplication : Sentence → Bool
  | .implication _ _ => true
  | _ => false

namespace Mendelson

/-- Premises and a conclusion to derive from them. -/
structure Problem where
  /-- What may be used. -/
  premises : SortedSet Sentence
  /-- What is to be derived. -/
  conclusion : Sentence
  deriving DecidableEq

/-- A sentence with connectives that Mendelson's system does not have. -/
inductive ProblemError where
  | conclusion (sentence : Sentence)
  | premise (sentence : Sentence)
  deriving DecidableEq

namespace ProblemError

/-- The sentence at fault. -/
def sentence : ProblemError → Sentence
  | conclusion s | premise s => s

/-- The wording of the error. -/
def message : ProblemError → String
  | conclusion s => "invalid Mendelson sentence in conclusion: " ++ s.text
  | premise s => "invalid Mendelson sentence in premise: " ++ s.text

end ProblemError

namespace Problem

/-- The problem of deriving a conclusion from the listed premises, whatever their order and
repetition. -/
def ofList (premises : List Sentence) (conclusion : Sentence) : Problem :=
  ⟨SortedSet.ofList premises, conclusion⟩

/-- What is wrong with a problem: a conclusion outside of the system, or else the first such
premise. -/
def error? (p : Problem) : Option ProblemError :=
  if p.conclusion.isMendelson then
    (p.premises.toList.find? fun s ↦ !s.isMendelson).map .premise
  else some (.conclusion p.conclusion)

/-- Whether the conclusion is among the premises. -/
def isGiven (p : Problem) : Bool := p.premises.contains p.conclusion

/-- The first step, in the order of premises, that eliminates an implication and gives the
conclusion. -/
def step? (p : Problem) : Option Rule :=
  ((p.premises.toList.filter Sentence.isImplication).map Rule.implicationElimination).find?
    fun rule ↦ decide (rule.derived? = some p.conclusion)

/-- Search for a proof of at most one step, and tell what was found. -/
def proveAccount (p : Problem) : Account ProblemError (List Rule) :=
  match p.error? with
  | some e => .fail e
  | none =>
    if p.isGiven then do
      Account.tell (.given p.conclusion)
      return []
    else
      match p.step? with
      | some rule => do
        Account.tell (.found rule p.conclusion)
        return [rule]
      | none => do
        Account.tell (.notFound p.conclusion)
        return []

/-- The proof that the search finds. -/
def prove (p : Problem) : Except ProblemError (List Rule) := p.proveAccount.result

/-- A proof is empty, or it is the step. -/
theorem prove_eq (p : Problem) :
    p.prove =
      match p.error? with
      | some e => .error e
      | none => .ok (if p.isGiven then [] else p.step?.toList) := by
  rw [prove, proveAccount]
  cases p.error? with
  | some e => rfl
  | none =>
    change (if _ then _ else _ : Account ProblemError (List Rule)).result = _
    split
    · rfl
    · cases p.step? <;> rfl

/-- The premises of a problem are the listed ones. -/
@[simp] theorem mem_premises_ofList {premises : List Sentence} {conclusion s : Sentence} :
    s ∈ (ofList premises conclusion).premises ↔ s ∈ premises := SortedSet.mem_ofList

/-- The conclusion of a problem is the given one. -/
@[simp] theorem conclusion_ofList (premises : List Sentence) (conclusion : Sentence) :
    (ofList premises conclusion).conclusion = conclusion := rfl

end Problem

end Mendelson

end Sentential

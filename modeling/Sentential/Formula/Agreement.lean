import Sentential.Assignment.Enumeration
import Sentential.Formula

/-!
# Agreement of formulas

Two formulas are compared under all assignments over their joint vocabulary, which splits these
into the ones under which the formulas agree and the ones under which they do not. The formulas
are logically equivalent when they agree under all.
-/

namespace Sentential

/-- The assignments over a vocabulary, split by whether two formulas agree under them. -/
structure Agreement where
  /-- The assignments under which the formulas have the same value, in ascending order. -/
  agreeing : List Assignment
  /-- The assignments under which they have different values, in ascending order. -/
  disagreeing : List Assignment
  deriving DecidableEq

/-- Whether there is no assignment under which the formulas disagree. -/
def Agreement.isComplete (agreement : Agreement) : Bool := agreement.disagreeing.isEmpty

namespace Formula

/-- The assignments under which two formulas are compared. -/
def jointAssignments (left right : Formula) : List Assignment :=
  (left.vocabulary ∪ right.vocabulary).assignments

/-- Whether two formulas have the same value under an assignment; the left one is evaluated
first. -/
def agreeUnder (left right : Formula) (a : Assignment) : Except UnassignedVariable Bool := do
  let leftValue ← left.evaluate a
  let rightValue ← right.evaluate a
  return leftValue == rightValue

/-- Split assignments by whether the formulas agree under them. -/
def agreementAmong (left right : Formula) (assignments : List Assignment) :
    Except UnassignedVariable Agreement := do
  let verdicts ← assignments.mapM fun a ↦ do return (a, ← agreeUnder left right a)
  return {
    agreeing := (verdicts.filter fun (_, agree) ↦ agree).map Prod.fst
    disagreeing := (verdicts.filter fun (_, agree) ↦ !agree).map Prod.fst }

/-- List the assignments over the joint vocabulary, split them, and tell how many agree and how
many do not. -/
def agreementAccount (left right : Formula) : Account UnassignedVariable Agreement := do
  let joint := left.vocabulary ∪ right.vocabulary
  let assignments ← joint.assignmentsAccount
  let agreement ← agreementAmong left right assignments
  Account.tell (.compared agreement.agreeing.length agreement.disagreeing.length joint)
  return agreement

/-- The assignments over the joint vocabulary, split by whether the formulas agree. -/
def agreement (left right : Formula) : Except UnassignedVariable Agreement :=
  (agreementAccount left right).result

/-- Whether the formulas agree under all assignments over their joint vocabulary. -/
def isEquivalent (left right : Formula) : Except UnassignedVariable Bool := do
  return (← agreement left right).isComplete

/-- What is split are the joint assignments. -/
theorem agreement_eq (left right : Formula) :
    agreement left right = agreementAmong left right (jointAssignments left right) := by
  rw [agreement, agreementAccount, Vocabulary.result_bind_assignmentsAccount]
  exact Account.result_bind_tell (liftM (agreementAmong left right (jointAssignments left right))) _

end Formula

end Sentential

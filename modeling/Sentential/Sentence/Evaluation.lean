import Sentential.Assignment
import Sentential.Sentence

/-!
# The truth value of a sentence

A sentence has a truth value under an assignment that gives a value to every variable in it.
Both operands of a connective are always looked at, so a variable without a value is an error
even where the other operand decides; of several such variables the leftmost is named.
-/

namespace Sentential

/-- A variable that has no value in the assignment. -/
structure UnassignedVariable where
  /-- The variable without a value. -/
  missing : Variable
  deriving DecidableEq

/-- The wording of the error. -/
def UnassignedVariable.message (e : UnassignedVariable) : String :=
  "variable " ++ e.missing.label ++ " not assigned"

namespace Sentence

mutual

/-- The truth value of a sentence, or the leftmost variable in it that has no value. -/
def evaluate (a : Assignment) : Sentence → Except UnassignedVariable Bool
  | atom v =>
    match a.get? v with
    | some value => .ok value
    | none => .error ⟨v⟩
  | negation target => do
    let value ← target.evaluate a
    return !value
  | binary connective left right => do
    let leftValue ← left.evaluate a
    let rightValue ← right.evaluate a
    return connective.apply leftValue rightValue
  | set members => evaluateAll a members

/-- Whether all members are true; every member is evaluated, in order. -/
def evaluateAll (a : Assignment) : List Sentence → Except UnassignedVariable Bool
  | [] => .ok true
  | s :: rest => do
    let value ← s.evaluate a
    let others ← evaluateAll a rest
    return value && others

end

end Sentence

end Sentential

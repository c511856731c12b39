import Sentential.Sentence.Order

/-!
# The rules of Mendelson's system

Mendelson's axiom system speaks of atoms, negations and implications only. It has three axioms
and one rule of inference, the elimination of an implication.
-/

namespace Sentential

/-- Whether a sentence has atoms, negations and implications only. -/
def Sentence.isMendelson : Sentence → Bool
  | .atom _ => true
  | .negation target => target.isMendelson
  | .binary connective left right =>
    decide (connective = .implication) && left.isMendelson && right.isMendelson
  | .set _ => false

namespace Mendelson

/-- The application of a rule or an axiom. -/
inductive Rule where
  /-- From `a => b`, and `a`, follows `b`. -/
  | implicationElimination (implication : Sentence)
  /-- The axiom `(a => (b => c)) => ((a => b) => (a => c))`. -/
  | implicationDistribution (a b c : Sentence)
  /-- The axiom `a => (b => a)`. -/
  | implicationCreation (a b : Sentence)
  /-- The axiom `(-a => b) => ((-a => -b) => a)`. -/
  | contradictionRealisation (a b : Sentence)
  deriving DecidableEq

namespace Rule

/-- The name of the rule. -/
def name : Rule → String
  | implicationElimination .. => "ImplicationElimination"
  | implicationDistribution .. => "ImplicationDistribution"
  | implicationCreation .. => "ImplicationCreation"
  | contradictionRealisation .. => "ContradictionRealisation"

/-- The sentences that the rule is applied to. -/
def arguments : Rule → List Sentence
  | implicationElimination implication => [implication]
  | implicationDistribution a b c => [a, b, c]
  | implicationCreation a b | contradictionRealisation a b => [a, b]

/-- The rule of a name applied to sentences, if there are as many as it needs. -/
def ofName? (name : String) (arguments : List Sentence) : Option Rule :=
  match name, arguments with
  | "ImplicationElimination", [implication] => some (implicationElimination implication)
  | "ImplicationDistribution", [a, b, c] => some (implicationDistribution a b c)
  | "ImplicationCreation", [a, b] => some (implicationCreation a b)
  | "ContradictionRealisation", [a, b] => some (contradictionRealisation a b)
  | _, _ => none

/-- The sentence that is derived. Only an implication can be eliminated. -/
def derived? : Rule → Option Sentence
  | implicationElimination (.implication _ consequent) => some consequent
  | implicationElimination _ => none
  | implicationDistribution a b c =>
    some (.implication (.implication a (.implication b c))
      (.implication (.implication a b) (.implication a c)))
  | implicationCreation a b => some (.implication a (.implication b a))
  | contradictionRealisation a b =>
    some (.implication (.implication (.negation a) b)
      (.implication (.implication (.negation a) (.negation b)) a))

end Rule

end Mendelson

end Sentential

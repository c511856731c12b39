import Sentential.Sentence

/-!
# Classical truth

A valuation settles every variable; under it each sentence holds or does not, as the classical
reading of its connectives has it.
-/

namespace Sentential

/-- How a connective combines two propositions. -/
def Connective.Holds : Connective → Prop → Prop → Prop
  | conjunction, p, q => p ∧ q
  | disjunction, p, q => p ∨ q
  | implication, p, q => p → q
  | reduction, p, q => q → p
  | equivalence, p, q => p ↔ q

namespace Sentence

mutual

/-- The sentence is true when exactly the given variables are. -/
def Holds (valuation : Variable → Prop) : Sentence → Prop
  | atom v => valuation v
  | negation target => ¬target.Holds valuation
  | binary connective left right =>
    connective.Holds (left.Holds valuation) (right.Holds valuation)
  | set members => AllHold valuation members

/-- All members are true. -/
def AllHold (valuation : Variable → Prop) : List Sentence → Prop
  | [] => True
  | s :: rest => s.Holds valuation ∧ AllHold valuation rest

end

/-- All members are true when each of them is. -/
theorem allHold_iff {valuation : Variable → Prop} {members : List Sentence} :
    AllHold valuation members ↔ ∀ s ∈ members, s.Holds valuation := by
  induction members with
  | nil => simp [AllHold]
  | cons s rest ih => simp [AllHold, ih]

end Sentence

end Sentential

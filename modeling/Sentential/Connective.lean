import Sentential.Ascending

/-!
# Binary connectives

The five binary connectives: their symbols, truth functions, binding powers and order. The three
arrows bind equally and most loosely.
-/

namespace Sentential

/-- A binary connective. A reduction reads `consequent <= antecedent`, the converse of an
implication. -/
inductive Connective where
  | conjunction
  | disjunction
  | implication
  | reduction
  | equivalence
  deriving DecidableEq

namespace Connective

/-- The written symbol. -/
def symbol : Connective → String
  | conjunction => "^"
  | disjunction => "|"
  | implication => "=>"
  | reduction => "<="
  | equivalence => "<=>"

/-- The name of the sentences that a connective forms. -/
def name : Connective → String
  | conjunction => "Conjunction"
  | disjunction => "Disjunction"
  | implication => "Implication"
  | reduction => "Reduction"
  | equivalence => "Equivalence"

/-- The truth function, of the left and the right operand. -/
def apply : Connective → Bool → Bool → Bool
  | conjunction, left, right => left && right
  | disjunction, left, right => left || right
  | implication, left, right => !left || right
  | reduction, left, right => left || !right
  | equivalence, left, right => left == right

/-- How tightly the connective holds its operands; the higher binds first. -/
def bindingPower : Connective → Nat
  | conjunction => 60
  | disjunction => 40
  | implication | reduction | equivalence => 20

/-- The place of the connective in the order of connectives. -/
def rank : Connective → Nat
  | conjunction => 0
  | disjunction => 1
  | implication => 2
  | reduction => 3
  | equivalence => 4

/-- Connectives are ordered by rank. -/
instance : Ord Connective where compare c d := compare c.rank d.rank

/-- Different connectives have different ranks. -/
theorem rank_inj {c d : Connective} : c.rank = d.rank ↔ c = d := by
  cases c <;> cases d <;> decide

/-- Comparing connectives is comparing ranks. -/
theorem compare_rank (c d : Connective) : compare c d = compare c.rank d.rank := rfl

/-- The order of ranks carries over to connectives. -/
instance : Std.TransOrd Connective where
  eq_swap := by
    intro c d
    rw [compare_rank, compare_rank]
    exact Std.OrientedCmp.eq_swap
  isLE_trans := by
    intro b c d hbc hcd
    rw [compare_rank] at hbc hcd ⊢
    exact Std.TransCmp.isLE_trans hbc hcd

/-- Connectives compare as equal only when they are. -/
instance : Std.LawfulEqOrd Connective where
  compare_self := by
    intro c
    rw [compare_rank]
    exact Std.ReflCmp.compare_self
  eq_of_compare := by
    intro c d h
    rw [compare_rank] at h
    exact rank_inj.mp (Std.LawfulEqCmp.eq_of_compare h)

end Connective

end Sentential

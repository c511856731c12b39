import Sentential.Connective
import Sentential.Vocabulary

/-!
# Sentences

A sentence is a tree of atoms, negations, binary connectives and sets of sentences, where a set
holds when all its members do. This module has the type, the immediate parts of a sentence and
the variables that occur in it.
-/

namespace Sentential

/-- A sentence of propositional logic. The members of a set are listed as they are given here;
`Sentence.setOf` lists them in structural order, each once. -/
inductive Sentence where
  | atom (v : Variable)
  | negation (target : Sentence)
  | binary (connective : Connective) (left right : Sentence)
  | set (members : List Sentence)

namespace Sentence

/-- Both operands together. -/
abbrev conjunction (left right : Sentence) : Sentence := binary .conjunction left right

/-- At least one of the operands. -/
abbrev disjunction (left right : Sentence) : Sentence := binary .disjunction left right

/-- The antecedent gives the consequent. -/
@[match_pattern] abbrev implication (antecedent consequent : Sentence) : Sentence :=
  binary .implication antecedent consequent

/-- The consequent is given by the antecedent. -/
abbrev reduction (consequent antecedent : Sentence) : Sentence :=
  binary .reduction consequent antecedent

/-- Both operands or neither. -/
abbrev equivalence (left right : Sentence) : Sentence := binary .equivalence left right

/-- The immediate parts, in the order in which they are written. -/
def children : Sentence → List Sentence
  | atom _ => []
  | negation target => [target]
  | binary _ left right => [left, right]
  | set members => members

/-- Whether a sentence has at least two immediate parts. -/
def hasMultiple (s : Sentence) : Bool := decide (2 ≤ s.children.length)

/-- The symbol of the main connective; atoms and sets have none. -/
def symbol? : Sentence → Option String
  | atom _ | set _ => none
  | negation _ => some "-"
  | binary connective _ _ => some connective.symbol

mutual

/-- The variables of the atoms, from left to right. -/
def atoms : Sentence → List Variable
  | atom v => [v]
  | negation target => target.atoms
  | binary _ left right => left.atoms ++ right.atoms
  | set members => memberAtoms members

/-- The variables of the atoms of all members, from left to right. -/
def memberAtoms : List Sentence → List Variable
  | [] => []
  | s :: rest => s.atoms ++ memberAtoms rest

end

mutual

/-- The sentence itself and all parts of its parts. -/
def parts : Sentence → List Sentence
  | atom v => [atom v]
  | negation target => negation target :: target.parts
  | binary connective left right => binary connective left right :: (left.parts ++ right.parts)
  | set members => set members :: memberParts members

/-- The members and all parts of them. -/
def memberParts : List Sentence → List Sentence
  | [] => []
  | s :: rest => s.parts ++ memberParts rest

end

/-- The variables that occur in a sentence. -/
def vocabulary (s : Sentence) : Vocabulary := SortedSet.ofList s.atoms

/-- Induction over sentences: a set has what all its members have. -/
@[elab_as_elim, induction_eliminator]
theorem induction {motive : Sentence → Prop} (atom : ∀ v, motive (atom v))
    (negation : ∀ target, motive target → motive (negation target))
    (binary : ∀ connective left right, motive left → motive right →
      motive (binary connective left right))
    (set : ∀ members, (∀ s ∈ members, motive s) → motive (set members)) (s : Sentence) :
    motive s :=
  match s with
  | .atom v => atom v
  | .negation target => negation target (induction atom negation binary set target)
  | .binary connective left right =>
    binary connective left right (induction atom negation binary set left)
      (induction atom negation binary set right)
  | .set members => set members fun s _ ↦ induction atom negation binary set s

/-- The vocabulary holds the variables of the atoms. -/
@[simp] theorem mem_vocabulary {s : Sentence} {v : Variable} : v ∈ s.vocabulary ↔ v ∈ s.atoms :=
  SortedSet.mem_ofList

/-- The atoms of the members are the atoms of each in turn. -/
theorem memberAtoms_eq_flatMap (members : List Sentence) :
    memberAtoms members = members.flatMap atoms := by
  induction members with
  | nil => rfl
  | cons s rest ih => rw [memberAtoms, ih, List.flatMap_cons]

end Sentence

end Sentential

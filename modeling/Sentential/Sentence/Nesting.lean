import Sentential.Sentence

/-!
# The depth of sentences

The height of a sentence counts every part; the nesting of its text counts the levels on which
operands stand when the text is read, where left operands stand on the level of the whole, but in
parentheses if they have two or more parts.
-/

namespace Sentential

namespace Sentence

mutual

/-- The number of steps from the whole down to the deepest part. -/
def height : Sentence → Nat
  | atom _ => 0
  | negation target => target.height + 1
  | binary _ left right => max left.height right.height + 1
  | set members => memberHeight members

/-- One more than the height of the highest member, or zero without members. -/
def memberHeight : List Sentence → Nat
  | [] => 0
  | s :: rest => max (s.height + 1) (memberHeight rest)

end

/-- Whether no part of a sentence is a set. -/
def isSetFree : Sentence → Bool
  | atom _ => true
  | negation target => target.isSetFree
  | binary _ left right => left.isSetFree && right.isSetFree
  | set _ => false

/-- One level for the parentheses of an operand, if it has any. -/
def operandLevels (s : Sentence) : Nat := if s.hasMultiple then 1 else 0

/-- The deepest level on which an operand stands in the text of a sentence without sets. -/
def textNesting : Sentence → Nat
  | atom _ => 0
  | negation target => 1 + (target.textNesting + target.operandLevels)
  | binary _ left right =>
    max (left.textNesting + left.operandLevels) (1 + (right.textNesting + right.operandLevels))
  | set _ => 0

end Sentence

end Sentential

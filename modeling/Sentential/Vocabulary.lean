import Sentential.Text.Brackets
import Sentential.Variable

/-!
# Vocabularies

A vocabulary is the finite set of variables under consideration.
-/

namespace Sentential

/-- A finite set of variables. -/
abbrev Vocabulary := SortedSet Variable

namespace Vocabulary

/-- The vocabulary of the variables with the given labels. The first text that is no label is
the error. -/
def ofLabels (labels : List String) : Except LabelError Vocabulary := do
  let named ← labels.mapM Variable.ofLabel
  return SortedSet.ofList named

/-- The sum of two vocabularies is the first with the variables of the second inserted. -/
instance : Add Vocabulary where add v w := v.insertAll w.toList

/-- The labels of the variables, in order. -/
def labels (v : Vocabulary) : List String := v.toList.map Variable.label

/-- The text of a vocabulary: its labels in order, between braces. -/
def text (v : Vocabulary) : String := braced v.labels

end Vocabulary

end Sentential

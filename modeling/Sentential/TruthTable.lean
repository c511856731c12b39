import Sentential.Assignment.Enumeration
import Sentential.Sentence.Display
import Sentential.Sentence.Evaluation
import Sentential.Sentence.Order

/-!
# Truth tables

A truth table has a column for every variable of its vocabulary, in order, and then one for
each of its sentences. Its rows are the assignments over the vocabulary in ascending order,
beginning with the one that makes all variables true.
-/

namespace Sentential

/-- A vocabulary, whose assignments are the rows, and the sentences to tabulate. -/
structure TruthTable where
  /-- The variables, each with a column of its own. -/
  vocabulary : Vocabulary
  /-- The sentences in the order of their columns. -/
  sentences : List Sentence
  deriving DecidableEq

namespace TruthTable

/-- A heading with its truth value in each row. -/
structure Column where
  /-- The sentence that heads the column. -/
  heading : Sentence
  /-- Its values from the first row to the last. -/
  values : List Bool
  deriving DecidableEq

/-- The digits of the values, as one text. -/
def Column.digits (column : Column) : String := String.ofList (column.values.map digit)

/-- The text of the heading and then those of the values. -/
def Column.cells (column : Column) : List String :=
  column.heading.text :: column.values.map fun value ↦ (digit value).toString

/-- The headings: the variables of the vocabulary, then the sentences. -/
def headings (t : TruthTable) : List Sentence :=
  t.vocabulary.toList.map Sentence.atom ++ t.sentences

/-- The values of a sentence under assignments. -/
def column (assignments : List Assignment) (heading : Sentence) :
    Except UnassignedVariable Column := do
  let values ← assignments.mapM fun a ↦ heading.evaluate a
  return ⟨heading, values⟩

/-- List the assignments over the vocabulary once, and evaluate the headings under them. -/
def columnsAccount (t : TruthTable) : Account UnassignedVariable (List Column) := do
  let assignments ← t.vocabulary.assignmentsAccount
  liftM (t.headings.mapM (column assignments))

/-- All columns. A sentence with a variable outside of the vocabulary is an error, and the
first such sentence gives it. -/
def columns (t : TruthTable) : Except UnassignedVariable (List Column) := t.columnsAccount.result

/-- Evaluate the columns, and write them as texts. -/
def cellsAccount (t : TruthTable) : Account UnassignedVariable (List (List String)) := do
  return (← t.columnsAccount).map Column.cells

/-- The columns as texts, each with its heading first. -/
def cells (t : TruthTable) : Except UnassignedVariable (List (List String)) :=
  t.cellsAccount.result

/-- The columns are those of the headings under the assignments over the vocabulary. -/
theorem columns_eq (t : TruthTable) :
    t.columns = t.headings.mapM (column t.vocabulary.assignments) := by
  rw [columns, columnsAccount, Vocabulary.result_bind_assignmentsAccount, Account.result_lift]

/-- The cells are those of the columns. -/
theorem cells_eq (t : TruthTable) : t.cells = do return (← t.columns).map Column.cells := by
  rw [cells, cellsAccount, Account.result_bind]
  rfl

end TruthTable

end Sentential

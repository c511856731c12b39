import Sentential.TruthTable

/-!
# Truth tables as grids of text

Columns of cells are drawn as a grid: each column is as wide as its longest cell, cells stand to
the left, bars stand between columns, and a divider stands above the first row, below it and
below the last.
-/

namespace Sentential

namespace Grid

/-- The length of the longest cell of a column, in bytes. -/
def width (column : List String) : Nat := (column.map String.utf8ByteSize).foldl max 0

/-- A text filled up with spaces on the right to a given number of characters. -/
def pad (width : Nat) (text : String) : String :=
  text ++ String.ofList (List.replicate (width - text.length) ' ')

/-- The line between rows: a plus before, between and after columns of dashes. -/
def divider (columns : List (List String)) : String :=
  "+" ++ String.join (columns.map fun column ↦
    String.ofList (List.replicate (width column + 2) '-') ++ "+")

/-- The number of rows, which is that of the first column. -/
def rowCount (columns : List (List String)) : Nat := (columns.head?.map List.length).getD 0

/-- The line of a row: its cells, padded, with bars before, between and after. -/
def row (columns : List (List String)) (index : Nat) : String :=
  "| " ++ " | ".intercalate (columns.map fun column ↦
    pad (width column) (column.getD index "")) ++ " |"

/-- The lines of a grid. Only the first row, which holds the headings, has a divider below it
besides the last. -/
def lines (columns : List (List String)) : List String :=
  let rows := (List.range (rowCount columns)).map (row columns)
  divider columns :: rows.take 1 ++ (rows.take 1).map (fun _ ↦ divider columns) ++
    rows.drop 1 ++ [divider columns]

/-- The grid as one text. -/
def text (columns : List (List String)) : String := "\n".intercalate (lines columns)

end Grid

namespace TruthTable

/-- Draw the cells as a grid, and tell how many columns and rows it has. -/
def textAccount (t : TruthTable) : Account UnassignedVariable String := do
  let columns ← t.cellsAccount
  Account.tell (.rendered columns.length (Grid.rowCount columns))
  return Grid.text columns

/-- The text of a truth table. -/
def text (t : TruthTable) : Except UnassignedVariable String := t.textAccount.result

/-- The text of a truth table as it is shown, where a failure does not tell its cause. -/
def display? (t : TruthTable) : Option String := t.text.toOption

/-- The text is the grid of the cells. -/
theorem text_eq (t : TruthTable) : t.text = do return Grid.text (← t.cells) := by
  rw [text, textAccount, Account.result_bind]
  rfl

end TruthTable

end Sentential

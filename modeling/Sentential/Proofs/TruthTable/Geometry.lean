import Sentential.Proofs.TruthTable.Rendering

/-!
# Places in the text of a truth table

A line of a grid is made of pieces with bars before, between and after them, and the widths of the
columns tell where these bars are: at the same places in all lines. In the dividers the bars are
pluses, and there are no others; in the rows there is a padded cell between two of them, which may
have bars in it when it is a heading.
-/

namespace Sentential

/-! ### Bars -/

/-- Pieces of text with a bar before, between and after them. -/
def framed (bar : Char) : List (List Char) → List Char
  | [] => [bar]
  | piece :: later => bar :: (piece ++ framed bar later)

/-- The place of the bar after the first `k` columns, where a cell has a space on either side. -/
def barPlace (widths : List Nat) (k : Nat) : Nat := ((widths.take k).map (· + 3)).sum

/-- One more column moves the later bars by its width, its two spaces and its bar. -/
theorem barPlace_cons (w : Nat) (widths : List Nat) (k : Nat) :
    barPlace (w :: widths) (k + 1) = w + 3 + barPlace widths k := by
  rw [barPlace, List.take_succ_cons, List.map_cons, List.sum_cons]
  rfl

/-- A column and its bar stand between two places. -/
theorem barPlace_succ {widths : List Nat} {k w : Nat} (h : widths[k]? = some w) :
    barPlace widths (k + 1) = barPlace widths k + (w + 3) := by
  rw [barPlace, List.take_add_one, h, List.map_append, List.sum_append]
  rfl

section Framed

variable {bar : Char} {pieces : List (List Char)} {widths : List Nat}

/-- From a bar on there are the later pieces, with bars around them. -/
theorem drop_framed (h : pieces.map List.length = widths.map (· + 2)) {k : Nat}
    (hk : k ≤ widths.length) :
    (framed bar pieces).drop (barPlace widths k) = framed bar (pieces.drop k) := by
  induction widths generalizing pieces k with
  | nil =>
    obtain rfl : pieces = [] := List.map_eq_nil_iff.mp h
    obtain rfl : k = 0 := Nat.le_zero.mp hk
    rfl
  | cons w ws ih =>
    cases pieces with
    | nil => cases h
    | cons piece later =>
      obtain ⟨hpiece, hlater⟩ : piece.length = w + 2 ∧
          later.map List.length = ws.map (· + 2) := List.cons.inj h
      cases k with
      | zero => rfl
      | succ k =>
        have hstep : barPlace (w :: ws) (k + 1) = piece.length + barPlace ws k + 1 := by
          rw [barPlace_cons, hpiece]
          omega
        rw [hstep, framed, List.drop_succ_cons, ← List.drop_drop, List.drop_left,
          ih hlater (Nat.le_of_succ_le_succ hk), List.drop_succ_cons]

/-- At each place there is a bar. -/
theorem getElem?_framed_barPlace (h : pieces.map List.length = widths.map (· + 2)) {k : Nat}
    (hk : k ≤ widths.length) : (framed bar pieces)[barPlace widths k]? = some bar := by
  rw [← List.head?_drop, drop_framed h hk]
  cases pieces.drop k <;> rfl

/-- Between two bars there is a piece. -/
theorem drop_take_framed (h : pieces.map List.length = widths.map (· + 2)) {k w : Nat}
    {piece : List Char} (hw : widths[k]? = some w) (hpiece : pieces[k]? = some piece) :
    ((framed bar pieces).take (barPlace widths (k + 1))).drop (barPlace widths k + 1) = piece := by
  obtain ⟨hk, -⟩ := List.getElem?_eq_some_iff.mp hw
  have hlength : piece.length = w + 2 := by
    have hboth := congrArg (fun lengths ↦ lengths[k]?) h
    simp only [List.getElem?_map, hpiece, hw, Option.map_some] at hboth
    exact Option.some.inj hboth
  have hrest : pieces.drop k = piece :: pieces.drop (k + 1) := by
    obtain ⟨hlt, rfl⟩ := List.getElem?_eq_some_iff.mp hpiece
    exact List.drop_eq_getElem_cons hlt
  have hcount : barPlace widths (k + 1) - (barPlace widths k + 1) = piece.length := by
    rw [barPlace_succ hw]
    omega
  rw [List.drop_take, hcount, ← List.drop_drop, drop_framed h (Nat.le_of_lt hk), hrest, framed,
    List.drop_succ_cons, List.drop_zero, List.take_left]

/-- The bars and the pieces, with the two spaces of each, make the length. -/
theorem length_framed (h : pieces.map List.length = widths.map (· + 2)) :
    (framed bar pieces).length = 1 + (widths.map (· + 3)).sum := by
  induction widths generalizing pieces with
  | nil =>
    obtain rfl : pieces = [] := List.map_eq_nil_iff.mp h
    rfl
  | cons w ws ih =>
    cases pieces with
    | nil => cases h
    | cons piece later =>
      obtain ⟨hpiece, hlater⟩ : piece.length = w + 2 ∧
          later.map List.length = ws.map (· + 2) := List.cons.inj h
      rw [framed, List.length_cons, List.length_append, ih hlater, hpiece, List.map_cons,
        List.sum_cons]
      omega

/-- There are no other bars, if none is in a piece. -/
theorem getElem?_framed_eq_bar_iff (h : pieces.map List.length = widths.map (· + 2))
    (hbar : ∀ piece ∈ pieces, bar ∉ piece) {i : Nat} :
    (framed bar pieces)[i]? = some bar ↔ ∃ k ≤ widths.length, i = barPlace widths k := by
  refine ⟨fun hi ↦ ?_, ?_⟩
  · induction widths generalizing pieces i with
    | nil =>
      obtain rfl : pieces = [] := List.map_eq_nil_iff.mp h
      cases i with
      | zero => exact ⟨0, Nat.le_refl 0, rfl⟩
      | succ i => cases hi
    | cons w ws ih =>
      cases pieces with
      | nil => cases h
      | cons piece later =>
        obtain ⟨hpiece, hlater⟩ : piece.length = w + 2 ∧
            later.map List.length = ws.map (· + 2) := List.cons.inj h
        obtain ⟨hnot, hnone⟩ := List.forall_mem_cons.mp hbar
        cases i with
        | zero => exact ⟨0, Nat.zero_le _, rfl⟩
        | succ i =>
          rw [framed, List.getElem?_cons_succ] at hi
          by_cases hlt : i < piece.length
          · rw [List.getElem?_append_left hlt] at hi
            exact absurd (List.mem_of_getElem? hi) hnot
          · rw [List.getElem?_append_right (Nat.le_of_not_lt hlt)] at hi
            obtain ⟨k, hk, he⟩ := ih hlater hnone hi
            refine ⟨k + 1, Nat.succ_le_succ hk, ?_⟩
            rw [barPlace_cons, ← he]
            omega
  · rintro ⟨k, hk, rfl⟩
    exact getElem?_framed_barPlace h hk

end Framed

/-! ### Lines -/

namespace Grid

/-- A divider is dashes with pluses around them. -/
theorem toList_divider_eq_framed (columns : List (List String)) :
    (divider columns).toList =
      framed '+' ((columns.map width).map fun w ↦ List.replicate (w + 2) '-') := by
  rw [toList_divider]
  induction columns.map width with
  | nil => rfl
  | cons w ws ih =>
    rw [List.map_cons, framed, ← ih, dashes, List.flatMap_cons, List.append_assoc]
    rfl

private theorem intercalate_eq_framed {items : List (List Char)} (h : items ≠ []) :
    ['|', ' '] ++ ([' ', '|', ' '].intercalate items ++ [' ', '|']) =
      framed '|' (items.map fun item ↦ ' ' :: (item ++ [' '])) := by
  induction items with
  | nil => exact absurd rfl h
  | cons first later ih =>
    cases later with
    | nil => simp [framed]
    | cons second later =>
      rw [List.map_cons, framed, ← ih (List.cons_ne_nil second later),
        List.intercalate_cons_cons]
      simp

/-- A row is padded cells, each between two spaces, with bars around them. -/
theorem toList_row_eq_framed {columns : List (List String)} (h : columns ≠ []) (index : Nat) :
    (row columns index).toList =
      framed '|' ((paddedRow columns index).map fun cell ↦ ' ' :: (cell ++ [' '])) := by
  rw [toList_row]
  refine intercalate_eq_framed fun hnil ↦ h ?_
  exact List.map_eq_nil_iff.mp hnil

/-- The dashes are as long as the columns are wide, and two longer. -/
theorem map_length_dashes (widths : List Nat) :
    (widths.map fun w ↦ List.replicate (w + 2) '-').map List.length = widths.map (· + 2) := by
  rw [List.map_map]
  refine List.map_congr_left fun w _ ↦ ?_
  rw [Function.comp_apply, List.length_replicate]

/-- The padded cells with their spaces are two longer than the columns are wide. -/
theorem map_length_spacedRow (columns : List (List String)) (index : Nat) :
    ((paddedRow columns index).map fun cell ↦ ' ' :: (cell ++ [' '])).map List.length =
      (columns.map width).map (· + 2) := by
  rw [← map_length_paddedRow columns index, List.map_map, List.map_map]
  refine List.map_congr_left fun cell _ ↦ ?_
  rw [Function.comp_apply, Function.comp_apply, List.length_cons, List.length_append,
    List.length_singleton]

end Grid

/-- Lines as a grid draws cells on them, given the number of rows, which includes the headings, and
the widths of the columns. -/
structure IsDrawing (rows : Nat) (widths : List Nat) (cells : List (List String))
    (lines : List (List Char)) : Prop where
  /-- There is a line for each row, and there are three dividers. -/
  length_lines : lines.length = rows + 3
  newline_not_mem : ∀ line ∈ lines, '\n' ∉ line
  length_line : ∀ line ∈ lines, line.length = 1 + (widths.map (· + 3)).sum
  /-- Counting bytes is counting characters. -/
  utf8Size_eq : ∀ line ∈ lines, ∀ c ∈ line, c.utf8Size = 1
  /-- The first and the third line and the last are the same, with pluses at the places of the bars
  and nowhere else. -/
  exists_divider : ∃ divider, lines[0]? = some divider ∧ lines[2]? = some divider ∧
    lines.getLast? = some divider ∧
    ∀ i, divider[i]? = some '+' ↔ ∃ k ≤ widths.length, i = barPlace widths k
  /-- Every column has a cell in every row. -/
  length_cells : cells.length = widths.length
  length_column : ∀ column ∈ cells, column.length = rows
  /-- Every other line has bars at their places, and between two of them the cell of that column and
  row, filled up with spaces to the width, and a space on either side. -/
  exists_row : ∀ index < rows, ∃ row,
    lines[if index = 0 then 1 else index + 2]? = some row ∧
    (∀ k ≤ widths.length, row[barPlace widths k]? = some '|') ∧
    ∀ k w, widths[k]? = some w → ∃ column cell, cells[k]? = some column ∧
      column[index]? = some cell ∧ cell.length ≤ w ∧
      (row.take (barPlace widths (k + 1))).drop (barPlace widths k + 1) =
        ' ' :: (cell.toList ++ List.replicate (w - cell.length) ' ' ++ [' '])

namespace Grid

variable {columns : List (List String)} {n : Nat}

/-- The line on which a row stands. -/
theorem getElem?_lines_row (h : rowCount columns = n + 1) {index : Nat} (hi : index < n + 1) :
    (lines columns)[if index = 0 then 1 else index + 2]? = some (row columns index) := by
  rw [lines_of_rowCount h]
  cases index with
  | zero => rfl
  | succ index =>
    rw [if_neg (Nat.succ_ne_zero index), List.getElem?_cons_succ, List.getElem?_cons_succ,
      List.getElem?_cons_succ, List.getElem?_append_left (by simpa using Nat.lt_of_succ_lt_succ hi),
      List.getElem?_map, List.getElem?_range (Nat.lt_of_succ_lt_succ hi)]
    rfl

/-- Between two bars of a row there is its cell in that column. -/
theorem exists_cell_of_width (hne : columns ≠ []) (hlength : ∀ column ∈ columns, column.length = n)
    {index k w : Nat} (hi : index < n) (hw : (columns.map width)[k]? = some w) :
    ∃ column cell, columns[k]? = some column ∧ column[index]? = some cell ∧ cell.length ≤ w ∧
      ((row columns index).toList.take (barPlace (columns.map width) (k + 1))).drop
        (barPlace (columns.map width) k + 1) =
          ' ' :: (cell.toList ++ List.replicate (w - cell.length) ' ' ++ [' ']) := by
  rw [List.getElem?_map, Option.map_eq_some_iff] at hw
  obtain ⟨column, hcolumn, rfl⟩ := hw
  have hin : index < column.length := by rwa [hlength column (List.mem_of_getElem? hcolumn)]
  have hcell : column[index]? = some column[index] := List.getElem?_eq_getElem hin
  refine ⟨column, column[index], hcolumn, hcell,
    length_le_width (List.mem_of_getElem? hcell), ?_⟩
  have hpiece : ((paddedRow columns index).map fun cell ↦ ' ' :: (cell ++ [' ']))[k]? =
      some (' ' :: ((pad (width column) column[index]).toList ++ [' '])) := by
    simp [paddedRow, hcolumn, hcell]
  rw [toList_row_eq_framed hne, drop_take_framed (map_length_spacedRow columns index)
    (by rw [List.getElem?_map, hcolumn]; rfl) hpiece, pad, String.toList_append,
    String.toList_ofList]

/-- All lines of a grid are as long. -/
theorem length_of_mem_lines (hne : columns ≠ []) {line : String} (h : line ∈ lines columns) :
    line.toList.length = 1 + ((columns.map width).map (· + 3)).sum := by
  rcases divider_or_row_of_mem_lines h with rfl | ⟨index, rfl⟩
  · rw [toList_divider_eq_framed, length_framed (map_length_dashes _)]
  · rw [toList_row_eq_framed hne, length_framed (map_length_spacedRow columns index)]

/-- A divider has pluses at the places of the bars and nowhere else. -/
theorem getElem?_divider_eq_plus_iff {i : Nat} :
    (divider columns).toList[i]? = some '+' ↔
      ∃ k ≤ (columns.map width).length, i = barPlace (columns.map width) k := by
  rw [toList_divider_eq_framed]
  refine getElem?_framed_eq_bar_iff (map_length_dashes _) fun piece hpiece hplus ↦ ?_
  obtain ⟨w, -, rfl⟩ := List.mem_map.mp hpiece
  exact absurd (List.mem_replicate.mp hplus).2 (by decide)

/-- The lines of a grid of printable cells, with as many in each column, draw these. -/
theorem isDrawing_lines (hne : columns ≠ []) (hlength : ∀ column ∈ columns, column.length = n + 1)
    (hprintable : ∀ column ∈ columns, ∀ cell ∈ column, ∀ c ∈ cell.toList, IsPrintable c) :
    IsDrawing (n + 1) (columns.map width) columns ((lines columns).map String.toList) := by
  have hcount : rowCount columns = n + 1 := by
    obtain ⟨column, rest, rfl⟩ := List.exists_cons_of_ne_nil hne
    exact hlength column List.mem_cons_self
  have hchars : ∀ line ∈ (lines columns).map String.toList, ∀ c ∈ line, IsPrintable c := by
    intro line hm
    obtain ⟨line, hline, rfl⟩ := List.mem_map.mp hm
    exact forall_mem_line (List.all_iff_forall_prop.mp (by decide)) hprintable hline
  constructor
  case length_lines => rw [List.length_map, length_lines, hcount, if_neg (Nat.succ_ne_zero n)]
  case newline_not_mem =>
    exact fun line hm hnewline ↦ absurd (hchars line hm '\n' hnewline) (by decide)
  case length_line =>
    intro line hm
    obtain ⟨line, hline, rfl⟩ := List.mem_map.mp hm
    exact length_of_mem_lines hne hline
  case utf8Size_eq => exact fun line hm c hc ↦ (hchars line hm c hc).utf8Size_eq
  case exists_divider =>
    refine ⟨(divider columns).toList, ?_, ?_, ?_, fun i ↦ getElem?_divider_eq_plus_iff⟩
    · rw [lines_of_rowCount hcount]
      rfl
    · rw [lines_of_rowCount hcount]
      rfl
    · rw [lines_of_rowCount hcount, List.getLast?_map, ← List.cons_append, ← List.cons_append,
        ← List.cons_append, List.getLast?_concat]
      rfl
  case length_cells => exact (List.length_map _).symm
  case length_column => exact hlength
  case exists_row =>
    intro index hi
    refine ⟨(row columns index).toList, ?_, fun k hk ↦ ?_, fun k w hw ↦ ?_⟩
    · rw [List.getElem?_map, getElem?_lines_row hcount hi]
      rfl
    · rw [toList_row_eq_framed hne]
      exact getElem?_framed_barPlace (map_length_spacedRow columns index) hk
    · exact exists_cell_of_width hne hlength hi hw

end Grid

namespace TruthTable

/-- The text of a truth table over `n` variables, if it has columns, is `2 ^ n + 4` lines that draw
its cells in columns as wide as the headings are long. Without columns it is two lines of one plus
each. -/
theorem text_isDrawing {t : TruthTable} {g : String} (h : t.text = .ok g) :
    (t.headings = [] → g.toList.splitOn '\n' = [['+'], ['+']]) ∧
    (t.headings ≠ [] → ∃ cells, t.cells = .ok cells ∧
      IsDrawing (2 ^ t.vocabulary.size + 1) (t.headings.map fun s ↦ s.text.utf8ByteSize) cells
        (g.toList.splitOn '\n')) := by
  obtain ⟨columns, hcolumns, rfl⟩ := exists_columns_of_text h
  have hheadings := map_heading_of_columns hcolumns
  rw [Grid.splitOn_text (isOnOneLine_cells columns), ← hheadings]
  refine ⟨fun hnil ↦ ?_, fun hne ↦ ⟨columns.map Column.cells, ?_, ?_⟩⟩
  · obtain rfl : columns = [] := List.map_eq_nil_iff.mp hnil
    rfl
  · rw [cells_eq, hcolumns]
    rfl
  · have hwidths : (columns.map Column.heading).map (fun s ↦ s.text.utf8ByteSize) =
        (columns.map Column.cells).map Grid.width := by
      rw [List.map_map, List.map_map]
      exact List.map_congr_left fun c _ ↦ (width_cells c).symm
    rw [hwidths]
    refine Grid.isDrawing_lines (fun hnil ↦ hne ?_) (fun column hm ↦ ?_)
      (isPrintable_of_mem_cells columns)
    · rw [List.map_eq_nil_iff.mp hnil]
      rfl
    · obtain ⟨c, hc, rfl⟩ := List.mem_map.mp hm
      rw [Column.cells, List.length_cons, List.length_map, length_values_of_columns hcolumns c hc]

private def barred (v : Variable) : TruthTable :=
  ⟨SortedSet.ofList [v], [.disjunction (.atom v) (.negation (.atom v))]⟩

private def barredText : String :=
  "\n".intercalate
    ["+---+--------+",
     "| p | p | -p |",
     "+---+--------+",
     "| 1 | 1      |",
     "| 0 | 1      |",
     "+---+--------+"]

/-- The bar of a disjunction in a heading is not one between two columns. -/
theorem text_isDrawing_barred :
    (barred ⟨"p", by decide⟩).text = .ok barredText ∧
    ∃ cells, (barred ⟨"p", by decide⟩).cells = .ok cells ∧
      IsDrawing 3 [1, 6] cells (barredText.toList.splitOn '\n') := by
  have htext : (barred ⟨"p", by decide⟩).text = .ok barredText := rfl
  exact ⟨htext, (text_isDrawing htext).2 (by decide)⟩

end TruthTable

end Sentential

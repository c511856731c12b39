import Mathlib.Data.Bool.AllAny
import Sentential.Proofs.Text.Separated
import Sentential.Proofs.Token.Scanning
import Sentential.TruthTable.Grid

/-!
# Reading a grid

The text of a grid gives back the grid up to the padding of its cells: the dividers show how wide
the columns are, the number of lines shows how many rows there are, and the widths show where the
cells of a row begin and end, whatever is written in them.
-/

namespace Sentential

namespace Grid

/-! ### Widths -/

/-- A column is as wide as its first cell or as the others. -/
theorem width_cons (cell : String) (column : List String) :
    width (cell :: column) = max cell.utf8ByteSize (width column) := by
  rw [width, width, List.map_cons, List.foldl_cons, Nat.max_comm, List.foldl_assoc]

/-- A column is as wide as its widest cell. -/
theorem width_le_iff {column : List String} {bound : Nat} :
    width column ≤ bound ↔ ∀ cell ∈ column, cell.utf8ByteSize ≤ bound := by
  induction column with
  | nil => simp [width]
  | cons cell column ih => rw [width_cons, Nat.max_le, ih, List.forall_mem_cons]

/-- No cell has more characters than its column is wide. -/
theorem length_le_width {column : List String} {cell : String} (h : cell ∈ column) :
    cell.length ≤ width column :=
  Nat.le_trans (length_le_utf8ByteSize cell) (width_le_iff.mp (Nat.le_refl _) cell h)

/-- Nor has what stands in a row where the column has no cell. -/
theorem length_getD_le_width (column : List String) (index : Nat) :
    (column.getD index "").length ≤ width column := by
  rw [List.getD_eq_getElem?_getD]
  cases h : column[index]? with
  | none => exact Nat.zero_le _
  | some cell => exact length_le_width (List.mem_of_getElem? h)

/-- A text that is not too long is filled up to the width. -/
theorem length_pad {w : Nat} {text : String} (h : text.length ≤ w) :
    (pad w text).toList.length = w := by
  rw [pad, String.toList_append, List.length_append, String.toList_ofList, List.length_replicate,
    String.length_toList]
  omega

/-- A text as long as the column is wide stays as it is. -/
theorem pad_length (text : String) : pad text.length text = text := by
  rw [pad, Nat.sub_self]
  simp

/-! ### Lines -/

/-- The cells of a row, padded. -/
def paddedRow (columns : List (List String)) (index : Nat) : List (List Char) :=
  columns.map fun column ↦ (pad (width column) (column.getD index "")).toList

/-- The dashes of a divider for columns of the given widths, each with its plus. -/
def dashes (widths : List Nat) : List Char :=
  widths.flatMap fun w ↦ List.replicate (w + 2) '-' ++ ['+']

/-- A divider shows the widths of the columns. -/
theorem toList_divider (columns : List (List String)) :
    (divider columns).toList = '+' :: dashes (columns.map width) := by
  rw [divider, dashes, String.toList_append, String.toList_join, List.flatMap_map, List.flatMap_map]
  simp [String.toList_append]

/-- Bars stand around and between the cells of a row. -/
theorem toList_row (columns : List (List String)) (index : Nat) :
    (row columns index).toList =
      ['|', ' '] ++ ([' ', '|', ' '].intercalate (paddedRow columns index) ++ [' ', '|']) := by
  rw [row, paddedRow, String.toList_append, String.toList_append, String.toList_intercalate,
    List.map_map, List.append_assoc]
  rfl

private theorem replicate_append_inj {m n : Nat} {after after' : List Char}
    (h : List.replicate m '-' ++ '+' :: after = List.replicate n '-' ++ '+' :: after') :
    m = n ∧ after = after' := by
  induction m generalizing n with
  | zero =>
    cases n with
    | zero => exact ⟨rfl, (List.cons.inj h).2⟩
    | succ n => exact absurd (List.cons.inj h).1 (by decide)
  | succ m ih =>
    cases n with
    | zero => exact absurd (List.cons.inj h).1 (by decide)
    | succ n =>
      obtain ⟨rfl, hafter⟩ := ih (List.cons.inj h).2
      exact ⟨rfl, hafter⟩

/-- The dashes between the pluses tell the widths. -/
theorem dashes_inj {widths widths' : List Nat} (h : dashes widths = dashes widths') :
    widths = widths' := by
  have hcons (w : Nat) (ws : List Nat) :
      dashes (w :: ws) = List.replicate (w + 2) '-' ++ '+' :: dashes ws := by
    rw [dashes, List.flatMap_cons, List.append_assoc]
    rfl
  induction widths generalizing widths' with
  | nil =>
    cases widths' with
    | nil => rfl
    | cons w' ws' => cases h
  | cons w ws ih =>
    cases widths' with
    | nil => cases h
    | cons w' ws' =>
      rw [hcons, hcons] at h
      obtain ⟨hw, hws⟩ := replicate_append_inj h
      rw [ih hws, Nat.add_right_cancel hw]

/-- Grids with the same divider have columns of the same widths. -/
theorem map_width_eq_of_divider {columns columns' : List (List String)}
    (h : divider columns = divider columns') : columns.map width = columns'.map width := by
  have hlists := congrArg String.toList h
  rw [toList_divider, toList_divider] at hlists
  exact dashes_inj (List.cons.inj hlists).2

/-- The cells of a row are as long as the columns are wide. -/
theorem map_length_paddedRow (columns : List (List String)) (index : Nat) :
    (paddedRow columns index).map List.length = columns.map width := by
  rw [paddedRow, List.map_map]
  exact List.map_congr_left fun column _ ↦ length_pad (length_getD_le_width column index)

/-- Where the columns are as wide, the same row has the same cells. -/
theorem paddedRow_eq_of_row {columns columns' : List (List String)} {index : Nat}
    (hwidth : columns.map width = columns'.map width)
    (h : row columns index = row columns' index) :
    paddedRow columns index = paddedRow columns' index := by
  have hlists := congrArg String.toList h
  rw [toList_row, toList_row] at hlists
  have hlength : (paddedRow columns index).map List.length =
      (paddedRow columns' index).map List.length := by
    rw [map_length_paddedRow, map_length_paddedRow, hwidth]
  exact (intercalate_inj_of_length hlength (List.append_cancel_left hlists)).1

/-! ### The lines of a text -/

/-- The headings stand between two dividers, the other rows between the second and a third. -/
theorem lines_of_rowCount {columns : List (List String)} {n : Nat}
    (h : rowCount columns = n + 1) :
    lines columns = divider columns :: row columns 0 :: divider columns ::
      ((List.range n).map (fun i ↦ row columns (i + 1)) ++ [divider columns]) := by
  rw [lines, h, List.range_succ_eq_map, List.map_cons, List.map_map]
  rfl

/-- Without rows there are two dividers. -/
theorem lines_of_rowCount_eq_zero {columns : List (List String)} (h : rowCount columns = 0) :
    lines columns = [divider columns, divider columns] := by
  rw [lines, h]
  rfl

/-- A grid with rows has three more lines than rows. -/
theorem length_lines (columns : List (List String)) :
    (lines columns).length = if rowCount columns = 0 then 2 else rowCount columns + 3 := by
  cases hn : rowCount columns with
  | zero => rw [lines_of_rowCount_eq_zero hn, if_pos rfl, List.length_cons, List.length_singleton]
  | succ n =>
    rw [lines_of_rowCount hn, if_neg (Nat.succ_ne_zero n)]
    simp only [List.length_cons, List.length_append, List.length_map, List.length_range,
      List.length_nil]

/-- No cell goes over two lines. -/
def IsOnOneLine (columns : List (List String)) : Prop :=
  ∀ column ∈ columns, ∀ cell ∈ column, '\n' ∉ cell.toList

/-- Every line is a divider or a row. -/
theorem divider_or_row_of_mem_lines {columns : List (List String)} {line : String}
    (h : line ∈ lines columns) : line = divider columns ∨ ∃ index, line = row columns index := by
  cases hn : rowCount columns with
  | zero =>
    rw [lines_of_rowCount_eq_zero hn] at h
    exact .inl (by simpa using h)
  | succ n =>
    rw [lines_of_rowCount hn] at h
    simp only [List.mem_cons, List.mem_append, List.mem_map, List.not_mem_nil, or_false] at h
    rcases h with rfl | rfl | rfl | ⟨index, -, rfl⟩ | rfl
    · exact .inl rfl
    · exact .inr ⟨0, rfl⟩
    · exact .inl rfl
    · exact .inr ⟨index + 1, rfl⟩
    · exact .inl rfl

/-- What holds of the characters of a grid and of those of its cells holds of all characters of its
lines. -/
theorem forall_mem_line {columns : List (List String)} {p : Char → Prop}
    (hgrid : ∀ c ∈ ['+', '-', '|', ' '], p c)
    (hcells : ∀ column ∈ columns, ∀ cell ∈ column, ∀ c ∈ cell.toList, p c) {line : String}
    (h : line ∈ lines columns) : ∀ c ∈ line.toList, p c := by
  have hpadded (index : Nat) : ∀ cell ∈ paddedRow columns index, ∀ c ∈ cell, p c := by
    intro cell hm c hc
    obtain ⟨column, hcolumn, rfl⟩ := List.mem_map.mp hm
    rw [pad, String.toList_append, String.toList_ofList, List.mem_append] at hc
    rcases hc with hc | hc
    · rw [List.getD_eq_getElem?_getD] at hc
      cases hi : column[index]? with
      | none =>
        rw [hi] at hc
        cases hc
      | some cell =>
        rw [hi] at hc
        exact hcells column hcolumn cell (List.mem_of_getElem? hi) c hc
    · rw [(List.mem_replicate.mp hc).2]
      exact hgrid ' ' (by decide)
  intro c hc
  rcases divider_or_row_of_mem_lines h with rfl | ⟨index, rfl⟩
  · rw [toList_divider, dashes, List.mem_cons, List.mem_flatMap] at hc
    apply hgrid
    rcases hc with rfl | ⟨w, -, hc⟩
    · decide
    · rcases List.mem_append.mp hc with hc | hc
      · rw [(List.mem_replicate.mp hc).2]
        decide
      · rw [List.mem_singleton.mp hc]
        decide
  · have hopening : ['|', ' '] ⊆ ['+', '-', '|', ' '] := by decide
    have hbetween : [' ', '|', ' '] ⊆ ['+', '-', '|', ' '] := by decide
    have hclosing : [' ', '|'] ⊆ ['+', '-', '|', ' '] := by decide
    rw [toList_row, List.mem_append, List.mem_append] at hc
    rcases hc with hc | hc | hc
    · exact hgrid c (hopening hc)
    · rcases mem_of_mem_intercalate hc with hc | ⟨cell, hrow, hc⟩
      · exact hgrid c (hbetween hc)
      · exact hpadded index cell hrow c hc
    · exact hgrid c (hclosing hc)

/-- The lines of a grid can be found in its text, if no cell goes over two lines. -/
theorem splitOn_text {columns : List (List String)} (h : IsOnOneLine columns) :
    (text columns).toList.splitOn '\n' = (lines columns).map String.toList := by
  rw [text, String.toList_intercalate]
  refine List.splitOn_intercalate '\n' (fun line hm ↦ ?_) ?_
  · obtain ⟨line, hline, rfl⟩ := List.mem_map.mp hm
    have hnone := forall_mem_line (p := (· ≠ '\n')) (List.all_iff_forall_prop.mp (by decide))
      (fun column hcolumn cell hcell c hc he ↦ h column hcolumn cell hcell (he ▸ hc)) hline
    exact fun hnewline ↦ hnone '\n' hnewline rfl
  · intro hnil
    cases List.map_eq_nil_iff.mp hnil

/-- Grids with the same text have the same lines. -/
theorem lines_eq_of_text {columns columns' : List (List String)} (h : IsOnOneLine columns)
    (h' : IsOnOneLine columns') (ht : text columns = text columns') :
    lines columns = lines columns' := by
  have hlists := splitOn_text h
  rw [ht, splitOn_text h'] at hlists
  exact (List.map_inj_right fun _ _ ↦ String.toList_inj.mp).mp hlists.symm

/-- The lines give back how many rows there are, how wide the columns are, and the padded
headings. -/
theorem shape_eq_of_lines {columns columns' : List (List String)}
    (h : lines columns = lines columns') :
    rowCount columns = rowCount columns' ∧ columns.map width = columns'.map width ∧
      (rowCount columns ≠ 0 → paddedRow columns 0 = paddedRow columns' 0) := by
  have hcount : rowCount columns = rowCount columns' := by
    have hlength := congrArg List.length h
    rw [length_lines, length_lines] at hlength
    -- A grid without rows has two lines, any other at least four.
    split at hlength <;> split at hlength <;> omega
  refine ⟨hcount, ?_⟩
  cases hn : rowCount columns' with
  | zero =>
    rw [lines_of_rowCount_eq_zero (hcount.trans hn), lines_of_rowCount_eq_zero hn] at h
    exact ⟨map_width_eq_of_divider (List.cons.inj h).1, fun hne ↦ absurd (hcount.trans hn) hne⟩
  | succ n =>
    rw [lines_of_rowCount (hcount.trans hn), lines_of_rowCount hn] at h
    obtain ⟨hdivider, hrest⟩ := List.cons.inj h
    have hwidth := map_width_eq_of_divider hdivider
    exact ⟨hwidth, fun _ ↦ paddedRow_eq_of_row hwidth (List.cons.inj hrest).1⟩

end Grid

end Sentential

import Sentential.Proofs.Sentence.Readability
import Sentential.Proofs.TruthTable.Columns
import Sentential.Proofs.TruthTable.Grid

/-!
# The table in its text

The text of a truth table determines the table. A column is as wide as its heading, so the headings
are found in the first row by their places, although they may have bars in them; the number of rows
shows how many of them are variables, and unique readability gives the sentences.
-/

namespace Sentential

/-- A space or a visible character of ASCII. -/
def IsPrintable (c : Char) : Prop := 32 ≤ c.toNat ∧ c.toNat ≤ 126

/-- Being printable is decided by the code point. -/
instance (c : Char) : Decidable (IsPrintable c) :=
  inferInstanceAs (Decidable (32 ≤ c.toNat ∧ c.toNat ≤ 126))

/-- A printable character takes one byte. -/
theorem IsPrintable.utf8Size_eq {c : Char} (h : IsPrintable c) : c.utf8Size = 1 :=
  Char.utf8Size_eq_one_iff.mpr (UInt32.le_iff_toNat_le.mpr (Nat.le_trans h.2 (by decide)))

private theorem isPrintable_of_all {text : String}
    (h : text.toList.all (fun c ↦ IsPrintable c) = true) : ∀ c ∈ text.toList, IsPrintable c :=
  List.all_iff_forall_prop.mp h

/-- All characters of the text of a sentence are printable. -/
theorem Sentence.isPrintable_of_mem_text (s : Sentence) : ∀ c ∈ s.text.toList, IsPrintable c := by
  have hlabel {d : Char} (h : isLabelPart d = true) : IsPrintable d := by
    obtain ⟨hge, hle⟩ := toNat_of_isLabelPart h
    exact ⟨by omega, by omega⟩
  have hoperand {t : Sentence} (h : ∀ c ∈ t.text.toList, IsPrintable c) :
      ∀ c ∈ (parenthesise t.hasMultiple t.text).toList, IsPrintable c := by
    rw [parenthesise]
    split
    · simp only [String.toList_append, List.forall_mem_append]
      exact ⟨⟨isPrintable_of_all rfl, h⟩, isPrintable_of_all rfl⟩
    · exact h
  induction s with
  | atom v =>
    obtain ⟨c, others, he, hc, hothers⟩ := Token.exists_of_isLabel v.isLabel_label
    rw [text, he, List.forall_mem_cons]
    exact ⟨hlabel (isLabelPart_of_isLabelStart hc), fun d hd ↦ hlabel (hothers d hd)⟩
  | negation target ih =>
    rw [text, String.toList_append, List.forall_mem_append]
    exact ⟨isPrintable_of_all rfl, hoperand ih⟩
  | binary c left right ihl ihr =>
    have hsymbol : ∀ d ∈ c.symbol.toList, IsPrintable d := by
      cases c <;> exact isPrintable_of_all rfl
    simp only [text, String.toList_append, List.forall_mem_append]
    exact ⟨⟨⟨⟨hoperand ihl, isPrintable_of_all rfl⟩, hsymbol⟩, isPrintable_of_all rfl⟩,
      hoperand ihr⟩
  | set members ih =>
    have hseparator : ∀ d ∈ ", ".toList, IsPrintable d := isPrintable_of_all rfl
    simp only [text, braced, String.toList_append, String.toList_intercalate,
      List.forall_mem_append]
    refine ⟨⟨isPrintable_of_all rfl, fun d hd ↦ ?_⟩, isPrintable_of_all rfl⟩
    rcases mem_of_mem_intercalate hd with hd | ⟨item, hitem, hd⟩
    · exact hseparator d hd
    · rw [memberTexts_eq_map, List.map_map] at hitem
      obtain ⟨t, ht, rfl⟩ := List.mem_map.mp hitem
      exact ih t ht d hd

/-- The text of a sentence has as many bytes as characters. -/
theorem Sentence.utf8ByteSize_text (s : Sentence) : s.text.utf8ByteSize = s.text.length :=
  utf8ByteSize_eq_length fun c hc ↦ (s.isPrintable_of_mem_text c hc).utf8Size_eq

namespace TruthTable

/-! ### Cells -/

/-- The text of a table is that of its columns. -/
theorem exists_columns_of_text {t : TruthTable} {g : String} (h : t.text = .ok g) :
    ∃ columns, t.columns = .ok columns ∧ g = Grid.text (columns.map Column.cells) := by
  rw [text_eq, cells_eq] at h
  cases hcolumns : t.columns with
  | error e =>
    rw [hcolumns] at h
    cases h
  | ok columns =>
    rw [hcolumns] at h
    cases h
    exact ⟨columns, rfl, rfl⟩

/-- All characters of the headings and of the digits are printable. -/
theorem isPrintable_of_mem_cells (columns : List Column) :
    ∀ column ∈ columns.map Column.cells, ∀ cell ∈ column, ∀ c ∈ cell.toList, IsPrintable c := by
  have hdigit (value : Bool) : ∀ c ∈ (digit value).toString.toList, IsPrintable c := by
    cases value <;> exact isPrintable_of_all rfl
  intro column hcolumn cell hcell
  obtain ⟨c, -, rfl⟩ := List.mem_map.mp hcolumn
  rcases List.mem_cons.mp hcell with rfl | hcell
  · exact c.heading.isPrintable_of_mem_text
  · obtain ⟨value, -, rfl⟩ := List.mem_map.mp hcell
    exact hdigit value

/-- No heading and no digit goes over two lines. -/
theorem isOnOneLine_cells (columns : List Column) :
    Grid.IsOnOneLine (columns.map Column.cells) :=
  fun column hcolumn cell hcell hnewline ↦
    absurd (isPrintable_of_mem_cells columns column hcolumn cell hcell '\n' hnewline) (by decide)

/-- A column is as wide as its heading is long. -/
theorem width_cells (c : Column) : Grid.width c.cells = c.heading.text.utf8ByteSize := by
  have hheading : 1 ≤ c.heading.text.utf8ByteSize := by
    obtain ⟨d, rest, he, -⟩ := c.heading.exists_text_eq_cons
    rw [c.heading.utf8ByteSize_text, ← String.length_toList, he, List.length_cons]
    omega
  have hdigits : Grid.width (c.values.map fun value ↦ (digit value).toString) ≤ 1 := by
    rw [Grid.width_le_iff]
    intro cell hcell
    obtain ⟨value, -, rfl⟩ := List.mem_map.mp hcell
    cases value <;> decide
  rw [Column.cells, Grid.width_cons]
  omega

/-- The first row has the headings, without padding. -/
theorem paddedRow_zero_cells (columns : List Column) :
    Grid.paddedRow (columns.map Column.cells) 0 =
      (columns.map Column.heading).map fun s ↦ s.text.toList := by
  rw [Grid.paddedRow, List.map_map, List.map_map]
  refine List.map_congr_left fun c _ ↦ ?_
  change (Grid.pad (Grid.width c.cells) c.heading.text).toList = c.heading.text.toList
  rw [width_cells, c.heading.utf8ByteSize_text, Grid.pad_length]

/-- Besides the row of the headings there is one for each value. -/
theorem rowCount_cells {columns : List Column} {n : Nat} (hne : columns ≠ [])
    (h : ∀ c ∈ columns, c.values.length = n) :
    Grid.rowCount (columns.map Column.cells) = n + 1 := by
  obtain ⟨c, rest, rfl⟩ := List.exists_cons_of_ne_nil hne
  change (c.cells.length) = n + 1
  rw [Column.cells, List.length_cons, List.length_map, h c List.mem_cons_self]

/-! ### The table -/

/-- The headings determine the table, given how many of them are variables. -/
theorem eq_of_headings_eq {t u : TruthTable} (hsize : t.vocabulary.size = u.vocabulary.size)
    (h : t.headings = u.headings) : t = u := by
  obtain ⟨hatoms, hsentences⟩ := List.append_inj h (by simpa [SortedSet.size] using hsize)
  have hlist : t.vocabulary.toList = u.vocabulary.toList :=
    (List.map_inj_right fun _ _ ↦ Sentence.atom.inj).mp hatoms
  cases t
  cases u
  cases SortedSet.eq_of_toList_eq hlist
  cases hsentences
  rfl

/-- Where the grids of two tables have the same lines, the tables have the same headings. -/
theorem headings_eq_of_lines {t u : TruthTable} {columns columns' : List Column}
    (ht : t.columns = .ok columns) (hu : u.columns = .ok columns')
    (h : Grid.lines (columns.map Column.cells) = Grid.lines (columns'.map Column.cells)) :
    t.headings = u.headings := by
  obtain ⟨-, hwidth, hrow⟩ := Grid.shape_eq_of_lines h
  rw [← map_heading_of_columns ht, ← map_heading_of_columns hu]
  by_cases hne : columns = []
  · -- Without columns there is no row of headings, but the divider shows it.
    subst hne
    have hnil := congrArg List.length hwidth
    simp only [List.map_nil, List.length_nil, List.length_map] at hnil
    rw [List.eq_nil_of_length_eq_zero hnil.symm]
  · have hcount := rowCount_cells hne (length_values_of_columns ht)
    have hrows := hrow (by rw [hcount]; exact Nat.succ_ne_zero _)
    rw [paddedRow_zero_cells, paddedRow_zero_cells] at hrows
    refine (List.map_inj_right fun s s' hs ↦ ?_).mp hrows
    exact s.isReadable.eq_of_text_eq (String.toList_inj.mp hs)

/-- Where the grids of two tables have the same lines, the tables have as many variables. -/
theorem size_eq_of_lines {t u : TruthTable} {columns columns' : List Column}
    (ht : t.columns = .ok columns) (hu : u.columns = .ok columns')
    (h : Grid.lines (columns.map Column.cells) = Grid.lines (columns'.map Column.cells)) :
    t.vocabulary.size = u.vocabulary.size := by
  have hheadings := headings_eq_of_lines ht hu h
  have hcolumns := map_heading_of_columns ht
  have hcolumns' := map_heading_of_columns hu
  by_cases hne : columns = []
  · -- A table without columns has no variables.
    have hsize {t : TruthTable} (hnil : t.headings = []) : t.vocabulary.size = 0 := by
      rw [headings, List.append_eq_nil_iff, List.map_eq_nil_iff] at hnil
      rw [SortedSet.size, hnil.1, List.length_nil]
    rw [hne, List.map_nil] at hcolumns
    rw [hsize hcolumns.symm, hsize (hheadings.symm.trans hcolumns.symm)]
  · have hne' : columns' ≠ [] := by
      rintro rfl
      rw [← hheadings, ← hcolumns, List.map_nil] at hcolumns'
      exact hne (List.map_eq_nil_iff.mp hcolumns'.symm)
    have hcount := (Grid.shape_eq_of_lines h).1
    rw [rowCount_cells hne (length_values_of_columns ht),
      rowCount_cells hne' (length_values_of_columns hu)] at hcount
    exact (Nat.pow_right_inj (by decide)).mp (Nat.add_right_cancel hcount)

/-- Tables with the same text have the same vocabulary and the same sentences in the same order. -/
theorem eq_of_text {t u : TruthTable} {g : String} (ht : t.text = .ok g) (hu : u.text = .ok g) :
    t = u := by
  obtain ⟨columns, hcolumns, rfl⟩ := exists_columns_of_text ht
  obtain ⟨columns', hcolumns', htext⟩ := exists_columns_of_text hu
  have hlines :=
    Grid.lines_eq_of_text (isOnOneLine_cells columns) (isOnOneLine_cells columns') htext
  exact eq_of_headings_eq (size_eq_of_lines hcolumns hcolumns' hlines)
    (headings_eq_of_lines hcolumns hcolumns' hlines)

private def listed (first second : Variable) : TruthTable :=
  ⟨SortedSet.ofList [first, second], [.setOf [.atom first, .atom second]]⟩

private def listedText : String :=
  "\n".intercalate
    ["+---+---+--------+",
     "| a | b | \x7ba, b\x7d |",
     "+---+---+--------+",
     "| 1 | 1 | 1      |",
     "| 1 | 0 | 0      |",
     "| 0 | 1 | 0      |",
     "| 0 | 0 | 0      |",
     "+---+---+--------+"]

/-- The order in which the variables and the members of a set were listed does not show in the text,
and makes no difference to the table. -/
theorem eq_of_text_listed_otherwise :
    (listed ⟨"a", by decide⟩ ⟨"b", by decide⟩).text = .ok listedText ∧
    (listed ⟨"b", by decide⟩ ⟨"a", by decide⟩).text = .ok listedText ∧
    listed ⟨"a", by decide⟩ ⟨"b", by decide⟩ = listed ⟨"b", by decide⟩ ⟨"a", by decide⟩ := by
  have hfirst : (listed ⟨"a", by decide⟩ ⟨"b", by decide⟩).text = .ok listedText := rfl
  have hsecond : (listed ⟨"b", by decide⟩ ⟨"a", by decide⟩).text = .ok listedText := rfl
  exact ⟨hfirst, hsecond, eq_of_text hfirst hsecond⟩

end TruthTable

end Sentential

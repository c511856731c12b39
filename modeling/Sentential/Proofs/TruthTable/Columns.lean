import Sentential.Proofs.Assignment.Counting
import Sentential.Proofs.Sentence.Definedness
import Sentential.Proofs.Traversal
import Sentential.TruthTable.Grid

/-!
# The columns of a truth table

A truth table has its columns exactly if its sentences have no variables but its own. The columns of
the variables count in binary, so they alternate between blocks of true and of false values; those
of the sentences have the values under the assignments in order. Where a sentence has another
variable, the first such sentence fails the table, whatever the rows are.
-/

namespace Sentential

/-! ### Blocks -/

/-- Blocks of as many true and as many false values in turn, beginning with true. -/
def alternating (pairs length : Nat) : List Bool :=
  (List.replicate pairs (List.replicate length true ++ List.replicate length false)).flatten

/-- More pairs of blocks come after the others. -/
theorem alternating_add (pairs pairs' length : Nat) :
    alternating (pairs + pairs') length =
      alternating pairs length ++ alternating pairs' length := by
  rw [alternating, ← List.replicate_append_replicate, List.flatten_append]
  rfl

/-- In the numbers in order a binary digit alternates between blocks of 0, which stands for true,
and of 1. -/
theorem map_testBit_range (j m : Nat) :
    (List.range (2 ^ (j + 1 + m))).map (fun i ↦ !i.testBit m) = alternating (2 ^ j) (2 ^ m) := by
  induction j with
  | zero =>
    have hlow : (List.range (2 ^ m)).map (fun i ↦ !i.testBit m) =
        List.replicate (2 ^ m) true := by
      refine List.eq_replicate_iff.mpr ⟨by simp, fun value hvalue ↦ ?_⟩
      obtain ⟨i, hi, rfl⟩ := List.mem_map.mp hvalue
      rw [Nat.testBit_lt_two_pow (List.mem_range.mp hi)]
      rfl
    have hhigh : ((List.range (2 ^ m)).map (2 ^ m + ·)).map (fun i ↦ !i.testBit m) =
        List.replicate (2 ^ m) false := by
      refine List.eq_replicate_iff.mpr ⟨by simp, fun value hvalue ↦ ?_⟩
      rw [List.map_map] at hvalue
      obtain ⟨i, hi, rfl⟩ := List.mem_map.mp hvalue
      rw [Function.comp_apply, Nat.testBit_two_pow_add_eq,
        Nat.testBit_lt_two_pow (List.mem_range.mp hi)]
      rfl
    rw [Nat.zero_add, Nat.add_comm, Nat.pow_succ, Nat.mul_two, List.range_add, List.map_append,
      hlow, hhigh]
    simp [alternating]
  | succ j ih =>
    have hagain : ((List.range (2 ^ (j + 1 + m))).map (2 ^ (j + 1 + m) + ·)).map
        (fun i ↦ !i.testBit m) = alternating (2 ^ j) (2 ^ m) := by
      rw [← ih, List.map_map]
      refine List.map_congr_left fun i _ ↦ ?_
      rw [Function.comp_apply, Nat.testBit_two_pow_add_gt (by omega)]
    have hsize : 2 ^ (j + 1 + 1 + m) = 2 ^ (j + 1 + m) + 2 ^ (j + 1 + m) := by
      rw [← Nat.mul_two, ← Nat.pow_succ]
      congr 1
      omega
    rw [hsize, List.range_add, List.map_append, ih, hagain, Nat.pow_succ, Nat.mul_two,
      alternating_add]

namespace TruthTable

open Sentence

/-! ### Success -/

/-- The headings of the variables have no variables but the table's. -/
theorem vocabulary_subset_of_mem_atoms {t : TruthTable} {s : Sentence}
    (h : s ∈ t.vocabulary.toList.map atom) : s.vocabulary ⊆ t.vocabulary := by
  obtain ⟨v, hv, rfl⟩ := List.mem_map.mp h
  intro w hw
  rw [mem_vocabulary, atoms, List.mem_singleton] at hw
  rw [hw]
  exact hv

open Classical in
/-- The column of a sentence of the table's variables shows where the sentence holds. -/
theorem column_of_inside {v : Vocabulary} {s : Sentence} (h : s.vocabulary ⊆ v) :
    column v.assignments s =
      .ok ⟨s, v.assignments.map fun a ↦ decide (s.Holds a.IsTrue)⟩ := by
  have hvalues : v.assignments.mapM (fun a ↦ s.evaluate a) =
      .ok (v.assignments.map fun a ↦ decide (s.Holds a.IsTrue)) := by
    apply mapM_eq_ok_map
    intro a ha
    rw [← Vocabulary.mem_assignments.mp ha] at h
    exact evaluate_of_covers (Assignment.covers_of_domain h)
  rw [column, hvalues]
  rfl

open Classical in
/-- A table whose sentences have no other variables than its own has all its columns. -/
theorem columns_of_inside {t : TruthTable}
    (h : ∀ s ∈ t.sentences, s.vocabulary ⊆ t.vocabulary) :
    t.columns = .ok (t.headings.map fun s ↦
      ⟨s, t.vocabulary.assignments.map fun a ↦ decide (s.Holds a.IsTrue)⟩) := by
  rw [columns_eq]
  apply mapM_eq_ok_map
  intro s hs
  apply column_of_inside
  rcases List.mem_append.mp hs with hs | hs
  · exact vocabulary_subset_of_mem_atoms hs
  · exact h s hs

/-! ### Failure -/

/-- The column of a sentence fails exactly with the leftmost variable that is not the table's. -/
theorem column_eq_error_iff {u : Vocabulary} {s : Sentence} {v : Variable} :
    column u.assignments s = .error ⟨v⟩ ↔ s.leftmostOutside? u = some v := by
  cases houtside : s.leftmostOutside? u with
  | none =>
    rw [column_of_inside (leftmostOutside?_eq_none_iff.mp houtside)]
    exact iff_of_false nofun nofun
  | some w =>
    -- The sentence fails under every assignment, and so under the first.
    obtain ⟨a, hhead, hdomain⟩ := u.exists_head?_assignments
    rw [← hdomain] at houtside
    have hvalues : u.assignments.mapM (fun a ↦ s.evaluate a) = .error ⟨w⟩ :=
      mapM_eq_error_of_head? hhead (evaluate_of_leftmostOutside? houtside)
    rw [column, hvalues, Option.some.injEq]
    exact ⟨fun h ↦ congrArg UnassignedVariable.missing (Except.error.inj h), fun h ↦ h ▸ rfl⟩

/-- The columns of a table fail exactly with the leftmost variable that is not the table's, of the
first of its sentences that has any. -/
theorem columns_eq_error_iff {t : TruthTable} {v : Variable} :
    t.columns = .error ⟨v⟩ ↔
      (t.sentences.findSome? fun s ↦ s.leftmostOutside? t.vocabulary) = some v := by
  have hatoms : ((t.vocabulary.toList.map atom).findSome? fun s ↦
      s.leftmostOutside? t.vocabulary) = none := by
    rw [List.findSome?_eq_none_iff]
    intro s hs
    exact leftmostOutside?_eq_none_iff.mpr (vocabulary_subset_of_mem_atoms hs)
  have hmissing {found : Option Variable} {e : UnassignedVariable} :
      found.map UnassignedVariable.mk = some e ↔ found = some e.missing := by
    rw [Option.map_eq_some_iff]
    constructor
    · rintro ⟨w, hw, rfl⟩
      exact hw
    · intro hw
      exact ⟨e.missing, hw, rfl⟩
  have herror (s : Sentence) (e : UnassignedVariable) :
      column t.vocabulary.assignments s = .error e ↔
        (s.leftmostOutside? t.vocabulary).map UnassignedVariable.mk = some e := by
    rw [hmissing, ← column_eq_error_iff]
  have hfirst : (t.headings.findSome? fun s ↦
      (s.leftmostOutside? t.vocabulary).map UnassignedVariable.mk) =
        (t.sentences.findSome? fun s ↦ s.leftmostOutside? t.vocabulary).map
          UnassignedVariable.mk := by
    rw [headings, ← Option.none_or (o := t.sentences.findSome? _), ← hatoms,
      ← List.findSome?_append, List.map_findSome?]
    rfl
  rw [columns_eq, mapM_eq_error_iff herror, hfirst, hmissing]

/-- The cells of a table fail with its columns. -/
theorem cells_eq_error_iff {t : TruthTable} {e : UnassignedVariable} :
    t.cells = .error e ↔ t.columns = .error e := by
  rw [cells_eq]
  exact return_eq_error_iff

/-- The text of a table fails with its columns. -/
theorem text_eq_error_iff {t : TruthTable} {e : UnassignedVariable} :
    t.text = .error e ↔ t.columns = .error e := by
  rw [text_eq]
  exact return_eq_error_iff.trans cells_eq_error_iff

/-- A table is not shown exactly if its columns fail. -/
theorem display?_eq_none_iff {t : TruthTable} :
    t.display? = none ↔ ∃ e, t.columns = .error e := by
  simp only [← text_eq_error_iff]
  rw [display?]
  cases t.text with
  | error e => exact iff_of_true rfl ⟨e, rfl⟩
  | ok text => exact iff_of_false nofun nofun

/-! ### Shape -/

open Classical in
/-- If a table has columns, these are the columns of its headings. -/
theorem columns_eq_of_ok {t : TruthTable} {columns : List Column} (h : t.columns = .ok columns) :
    columns = t.headings.map fun s ↦
      ⟨s, t.vocabulary.assignments.map fun a ↦ decide (s.Holds a.IsTrue)⟩ := by
  have hnone : (t.sentences.findSome? fun s ↦ s.leftmostOutside? t.vocabulary) = none := by
    refine Option.eq_none_iff_forall_ne_some.mpr fun v hv ↦ ?_
    rw [← columns_eq_error_iff, h] at hv
    cases hv
  have hinside := columns_of_inside fun s hs ↦
    leftmostOutside?_eq_none_iff.mp (List.findSome?_eq_none_iff.mp hnone s hs)
  rw [h] at hinside
  exact Except.ok.inj hinside

/-- The columns of a table are headed by its headings, in order. -/
theorem map_heading_of_columns {t : TruthTable} {columns : List Column}
    (h : t.columns = .ok columns) : columns.map Column.heading = t.headings := by
  classical
  rw [columns_eq_of_ok h, List.map_map]
  exact List.map_id _

/-- All columns of a table have a value for each assignment. -/
theorem length_values_of_columns {t : TruthTable} {columns : List Column}
    (h : t.columns = .ok columns) :
    ∀ c ∈ columns, c.values.length = 2 ^ t.vocabulary.size := by
  classical
  intro c hc
  rw [columns_eq_of_ok h] at hc
  obtain ⟨s, -, rfl⟩ := List.mem_map.mp hc
  rw [List.length_map, Vocabulary.length_assignments]

open Classical in
/-- The column of the variable at place `j` shows the binary digits of weight `2 ^ (n - 1 - j)`. -/
theorem map_holds_atom {v : Vocabulary} {j : Nat} {w : Variable} (h : v.toList[j]? = some w) :
    v.assignments.map (fun a ↦ decide ((atom w).Holds a.IsTrue)) =
      (List.range (2 ^ v.size)).map fun i ↦ !i.testBit (v.size - 1 - j) := by
  obtain ⟨hj, rfl⟩ := List.getElem?_eq_some_iff.mp h
  rw [Vocabulary.assignments, truthRows_eq_map_range, List.map_map, List.map_map]
  refine List.map_congr_left fun i _ ↦ ?_
  have hvalue : (v.assignRow (binaryRow v.size i)).get? v.toList[j] = _ :=
    Vocabulary.get?_assignRow_binaryRow v i ⟨j, hj⟩
  rw [Function.comp_apply, Function.comp_apply, Bool.eq_iff_iff, decide_eq_true_iff, Holds,
    Assignment.IsTrue, hvalue, Option.some.injEq]

/-- Columns as a table of `n` variables has them: one for each variable, in order, and then one for
each sentence, all with a value for each assignment. -/
structure IsTabulation (t : TruthTable) (columns : List Column) : Prop where
  length_eq : columns.length = t.vocabulary.size + t.sentences.length
  length_values : ∀ c ∈ columns, c.values.length = 2 ^ t.vocabulary.size
  /-- The column of the variable at place `j` has the binary digits of weight `2 ^ (n - 1 - j)`, in
  blocks of this length in turn. -/
  variable_column : ∀ j w, t.vocabulary.toList[j]? = some w → ∃ c, columns[j]? = some c ∧
    c.heading = atom w ∧
    (∀ i < 2 ^ t.vocabulary.size,
      c.values[i]? = some (!i.testBit (t.vocabulary.size - 1 - j))) ∧
    c.values = alternating (2 ^ j) (2 ^ (t.vocabulary.size - 1 - j))
  /-- The column of a sentence has its values under the assignments, in order. -/
  sentence_column : ∀ k s, t.sentences[k]? = some s → ∃ c,
    columns[t.vocabulary.size + k]? = some c ∧ c.heading = s ∧
    t.vocabulary.assignments.map (fun a ↦ s.evaluate a) = c.values.map .ok

/-- Where the sentences have no variables but the table's, the columns tabulate them. -/
theorem exists_isTabulation {t : TruthTable}
    (h : ∀ s ∈ t.sentences, s.vocabulary ⊆ t.vocabulary) :
    ∃ columns, t.columns = .ok columns ∧ IsTabulation t columns := by
  classical
  have hatoms : (t.vocabulary.toList.map atom).length = t.vocabulary.size := List.length_map _
  refine ⟨_, columns_of_inside h, ?_, ?_, fun j w hw ↦ ?_, fun k s hs ↦ ?_⟩
  · rw [List.length_map, headings, List.length_append, hatoms]
  · exact length_values_of_columns (columns_of_inside h)
  · obtain ⟨hj, -⟩ := List.getElem?_eq_some_iff.mp hw
    have hj : j < t.vocabulary.size := hj
    have hheading : t.headings[j]? = some (atom w) := by
      rw [headings, List.getElem?_append_left (hatoms ▸ hj), List.getElem?_map, hw]
      rfl
    have hplace : j + 1 + (t.vocabulary.size - 1 - j) = t.vocabulary.size := by omega
    simp only [List.getElem?_map, hheading, Option.map_some]
    refine ⟨_, rfl, rfl, fun i hi ↦ ?_, ?_⟩
    · rw [map_holds_atom hw, List.getElem?_map, List.getElem?_range hi]
      rfl
    · rw [← map_testBit_range, hplace, map_holds_atom hw]
  · have hheading : t.headings[t.vocabulary.size + k]? = some s := by
      rw [headings, List.getElem?_append_right (hatoms ▸ Nat.le_add_right _ k), hatoms,
        Nat.add_sub_cancel_left, hs]
    simp only [List.getElem?_map, hheading, Option.map_some]
    refine ⟨_, rfl, rfl, ?_⟩
    rw [List.map_map]
    refine List.map_congr_left fun a ha ↦ evaluate_of_covers (Assignment.covers_of_domain ?_)
    rw [Vocabulary.mem_assignments.mp ha]
    exact h s (List.mem_of_getElem? hs)

/-- A truth table has no columns exactly if one of its sentences has a variable that is not the
table's, and the error names the leftmost such variable of the first such sentence. Its cells, its
text and what is shown of it fail with the columns. Otherwise it has a column for each variable and
then one for each sentence: those of the variables count in binary, and those of the sentences have
their values under the assignments in order. -/
theorem columns_tabulate (t : TruthTable) :
    ((∃ e, t.columns = .error e) ↔ ∃ s ∈ t.sentences, ∃ v ∈ s.vocabulary, v ∉ t.vocabulary) ∧
    (∀ v, t.columns = .error ⟨v⟩ ↔
      (t.sentences.findSome? fun s ↦ s.leftmostOutside? t.vocabulary) = some v) ∧
    (∀ e, (t.cells = .error e ↔ t.columns = .error e) ∧
      (t.text = .error e ↔ t.columns = .error e)) ∧
    (t.display? = none ↔ ∃ e, t.columns = .error e) ∧
    ((∀ s ∈ t.sentences, s.vocabulary ⊆ t.vocabulary) →
      ∃ columns, t.columns = .ok columns ∧ IsTabulation t columns) := by
  refine ⟨?_, fun v ↦ columns_eq_error_iff, fun e ↦ ⟨cells_eq_error_iff, text_eq_error_iff⟩,
    display?_eq_none_iff, exists_isTabulation⟩
  have hfails : (∃ e, t.columns = .error e) ↔
      (t.sentences.findSome? fun s ↦ s.leftmostOutside? t.vocabulary) ≠ none := by
    rw [Option.ne_none_iff_exists']
    constructor
    · rintro ⟨⟨v⟩, h⟩
      exact ⟨v, columns_eq_error_iff.mp h⟩
    · rintro ⟨v, h⟩
      exact ⟨⟨v⟩, columns_eq_error_iff.mpr h⟩
  rw [hfails, ne_eq, List.findSome?_eq_none_iff]
  simp only [leftmostOutside?_eq_none_iff, Classical.not_forall, exists_prop]

end TruthTable

end Sentential

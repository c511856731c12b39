import Sentential.Account

/-!
# All assignments over a vocabulary

The rows of truth values of a given length are listed as binary counting lists them, with true
before false. Laid along the variables of a vocabulary they are its total assignments, in the
order of assignments.
-/

namespace Sentential

/-- The largest number of variables whose assignments are listed without a warning. -/
def largestQuietVocabulary : Nat := 20

/-- All rows of `n` truth values, counting in binary from all true to all false. -/
def truthRows : Nat → List (List Bool)
  | 0 => [[]]
  | n + 1 =>
    let rows := truthRows n
    rows.map (true :: ·) ++ rows.map (false :: ·)

namespace Vocabulary

private theorem zip_ascending {vs : List Variable} (h : Ascending compare vs)
    (values : List Bool) : Ascending (compareOn Prod.fst) (vs.zip values) := by
  induction vs generalizing values with
  | nil => exact Ascending.nil
  | cons v vs ih =>
    obtain ⟨hv, hvs⟩ := List.pairwise_cons.mp h
    cases values with
    | nil => exact Ascending.nil
    | cons value values =>
      exact List.pairwise_cons.mpr
        ⟨fun pair hp ↦ hv pair.1 (List.of_mem_zip hp).1, ih hvs values⟩

/-- The assignment that gives the variables, in order, the values of a row. -/
def assignRow (v : Vocabulary) (values : List Bool) : Assignment :=
  ⟨v.toList.zip values, zip_ascending v.ascending values⟩

/-- All total assignments over the vocabulary, in ascending order. The empty vocabulary has
exactly one, the empty assignment. -/
def assignments (v : Vocabulary) : List Assignment := (truthRows v.size).map v.assignRow

/-- List the assignments, and tell how many they are; of a large vocabulary there is a warning
before. -/
def assignmentsAccount {ε : Type} (v : Vocabulary) : Account ε (List Assignment) := do
  if largestQuietVocabulary < v.size then Account.tell (.enumerating v.size)
  let assignments := v.assignments
  Account.tell (.enumerated assignments.length v)
  return assignments

/-- Listing the assignments does not fail. -/
theorem result_assignmentsAccount {ε : Type} (v : Vocabulary) :
    (v.assignmentsAccount : Account ε (List Assignment)).result = .ok v.assignments := by
  rw [assignmentsAccount]
  split <;> rfl

/-- What comes after it has the result that it has for the assignments. -/
theorem result_bind_assignmentsAccount {ε α : Type} (v : Vocabulary)
    (next : List Assignment → Account ε α) :
    (v.assignmentsAccount >>= next).result = (next v.assignments).result := by
  rw [Account.result_bind, result_assignmentsAccount]
  rfl

end Vocabulary

/-- The rows of length `n` are all the lists of `n` truth values. -/
@[simp] theorem mem_truthRows {n : Nat} {row : List Bool} :
    row ∈ truthRows n ↔ row.length = n := by
  induction n generalizing row with
  | zero => simp [truthRows]
  | succ n ih =>
    cases row with
    | nil => simp [truthRows]
    | cons value row => cases value <;> simp [truthRows, ih]

namespace Vocabulary

/-- A row of the right length gives values to all variables of the vocabulary. -/
theorem domain_assignRow {v : Vocabulary} {values : List Bool} (h : values.length = v.size) :
    (v.assignRow values).domain = v :=
  SortedSet.eq_of_toList_eq (List.map_fst_zip (Nat.le_of_eq h.symm))

/-- The assignments over a vocabulary are those that give values to just its variables. -/
@[simp] theorem mem_assignments {v : Vocabulary} {a : Assignment} :
    a ∈ v.assignments ↔ a.domain = v := by
  rw [assignments, List.mem_map]
  constructor
  · rintro ⟨row, hr, rfl⟩
    exact domain_assignRow (mem_truthRows.mp hr)
  · rintro rfl
    refine ⟨a.pairs.map Prod.snd, ?_, ?_⟩
    · rw [mem_truthRows, List.length_map, SortedSet.size, Assignment.domain, List.length_map]
    · exact Assignment.eq_of_pairs_eq (List.zip_of_prod rfl rfl).symm

end Vocabulary

end Sentential

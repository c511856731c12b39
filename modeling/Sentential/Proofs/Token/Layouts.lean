import Sentential.Proofs.Token.Scanning

/-!
# Scanning words that are laid out

Words with blank gaps that end where they have to are scanned as they are, and the scan goes on
with what comes after them.
-/

namespace Sentential

namespace Layout

/-- A space is a gap. -/
theorem isBlank_space : ∀ c ∈ [' '], isBlank c = true := by
  intro c hc
  rw [List.mem_singleton.mp hc]
  decide

/-- A label ends before a character that cannot continue it. -/
theorem not_isLabelPart_head {c : Char} (h : isLabelPart c = false) (after : List Char) :
    ∀ d ∈ (c :: after).head?, isLabelPart d = false := by
  intro d hd
  obtain rfl : c = d := Option.some.inj hd
  exact h

/-- Every connective ends before a space. -/
theorem endsBefore_connective_space (c : Connective) (after : List Char) :
    EndsBefore (.connective c) (' ' :: after) := by
  cases c with
  | reduction =>
    intro h
    exact absurd (Option.some.inj h) (by decide)
  | conjunction | disjunction | implication | equivalence => trivial

/-- Words in two parts are written one part after the other. -/
theorem spread_append (first second : List (List Char × Token)) (tail : List Char) :
    spread (first ++ second) tail = spread first (spread second tail) := by
  induction first with
  | nil => rfl
  | cons word first ih => rw [List.cons_append, spread, spread, ih]

/-- The tail comes after the words. -/
theorem spread_eq_append (words : List (List Char × Token)) (tail : List Char) :
    spread words tail = spread words [] ++ tail := by
  induction words with
  | nil => rfl
  | cons word words ih => rw [spread, spread, ih, List.append_assoc, List.append_assoc]

/-- Words in two parts are as long as they can be if each part is before what follows it. -/
theorem areLongest_append {first second : List (List Char × Token)} {tail : List Char} :
    AreLongest (first ++ second) tail ↔
      AreLongest first (spread second tail) ∧ AreLongest second tail := by
  induction first with
  | nil => exact (and_iff_right trivial).symm
  | cons word first ih =>
    rw [List.cons_append, AreLongest, AreLongest, ih, spread_append, and_assoc, and_assoc]

/-- The lexemes of words have their tokens. -/
theorem map_token_lexemesFrom (position : Nat) (words : List (List Char × Token)) :
    (lexemesFrom position words).map Lexeme.token = words.map Prod.snd := by
  induction words generalizing position with
  | nil => rfl
  | cons word words ih => rw [lexemesFrom, List.map_cons, List.map_cons, ih]

end Layout

namespace Lexing

/-- Lexemes put before a lexing in two parts are put there together. -/
theorem prepend_prepend (first second : List Lexeme) (later : Lexing) :
    prepend first (prepend second later) = prepend (first ++ second) later := by
  rw [prepend, prepend, prepend, List.append_assoc]

/-- Words are scanned as they are laid out, and the scan goes on after them. -/
theorem scan_spread {words : List (List Char × Token)} {after : List Char}
    (hg : ∀ word ∈ words, ∀ c ∈ word.1, isBlank c = true) (hw : Layout.AreLongest words after)
    (position : Nat) :
    scan position (Layout.spread words after) =
      (scan (position + utf8Length (Layout.spread words [])) after).map
        (prepend (Layout.lexemesFrom position words)) := by
  induction words generalizing position with
  | nil =>
    change scan position after = (scan position after).map (prepend [])
    cases scan position after <;> rfl
  | cons word words ih =>
    obtain ⟨gap, token⟩ := word
    obtain ⟨htoken, hends, hwords⟩ := hw
    have hgap : ∀ c ∈ gap, isBlank c = true := hg _ List.mem_cons_self
    have hothers : ∀ word ∈ words, ∀ c ∈ word.1, isBlank c = true :=
      fun word hm ↦ hg word (List.mem_cons_of_mem _ hm)
    rw [Layout.spread, scan_gap_append hgap, scan_spelling_append htoken hends, ih hothers hwords,
      Layout.spread, utf8Length_append, utf8Length_append, ← Nat.add_assoc, ← Nat.add_assoc]
    cases scan _ after with
    | error e => rfl
    | ok later => exact congrArg Except.ok (prepend_prepend _ _ later)

end Lexing

end Sentential

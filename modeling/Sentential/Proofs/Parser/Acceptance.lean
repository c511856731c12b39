import Sentential.Proofs.Grammar.Rebuilding
import Sentential.Proofs.Parser.Reading
import Sentential.Proofs.Token.Scanning

/-!
# The texts that are accepted

A text is accepted exactly when its tokens are those of an expression of the grammar that is not
nested too deep. There is at most one such expression, and its sentence is the answer. Only blank
texts are empty.
-/

namespace Sentential

open Grammar

/-- Every tree has tokens. -/
theorem Grammar.Tree.yield_ne_nil (t : Tree) : t.yield ≠ [] := by
  cases t with
  | joined c left right => exact List.append_ne_nil_of_right_ne_nil _ (List.cons_ne_nil _ _)
  | label v => exact List.cons_ne_nil _ _
  | grouped inner => exact List.cons_ne_nil _ _
  | negated target => exact List.cons_ne_nil _ _

namespace Parser

/-- A formed tree is read from its tokens, unless it is nested too deep. -/
theorem sentence_of_yield {t : Tree} {lexing : Lexing} (ht : t.IsFormed)
    (hy : t.yield = lexing.lexemes.map Lexeme.token) :
    (t.nesting ≤ maxNesting → sentence lexing = .ok t.sentence) ∧
    (maxNesting < t.nesting →
      ∃ position, sentence lexing = .error (.tooDeep maxNesting position)) := by
  have hne : lexing.lexemes.isEmpty = false := by
    rw [List.isEmpty_eq_false_iff]
    intro hnil
    rw [hnil] at hy
    exact t.yield_ne_nil hy
  have hb : BeginsWith t lexing.lexemes [] :=
    ⟨lexing.lexemes, (List.append_nil _).symm, hy.symm⟩
  obtain ⟨hok, herror⟩ := (isRead_of_isFormed lexing.finish ht).expression
    (maxNesting + 1) hb t.exceeds_zero t.endsBefore_zero (Nat.le_refl 0)
  rw [sentence, hne]
  constructor
  · intro hn
    obtain ⟨p, hs, hr, hp⟩ := hok (Nat.lt_succ_of_le hn)
    rw [hp]
    change (if p.rest.isEmpty then Except.ok p.sentence else _) = _
    rw [hr, hs]
    rfl
  · intro hn
    obtain ⟨position, hp⟩ := herror hn
    refine ⟨position, ?_⟩
    rw [hp]
    rfl

/-- What is read as a sentence is a formed tree that is not nested too deep. -/
theorem exists_tree_of_sentence {lexing : Lexing} {s : Sentence} (h : sentence lexing = .ok s) :
    ∃ t : Tree, t.IsFormed ∧ t.yield = lexing.lexemes.map Lexeme.token ∧ t.sentence = s ∧
      t.nesting ≤ maxNesting := by
  rw [sentence] at h
  split at h
  · cases h
  · cases hp : expression lexing.finish (maxNesting + 1) 0 lexing.lexemes with
    | error e =>
      rw [hp] at h
      cases h
    | ok p =>
      rw [hp] at h
      change (if p.rest.isEmpty then Except.ok p.sentence else _) = _ at h
      split at h
      · next hrest =>
        have hs : p.sentence = s := Except.ok.inj h
        obtain ⟨-, t, ht, hn⟩ := isSound_expression lexing.finish (maxNesting + 1) hp
        obtain ⟨first, hf, hy⟩ := ht.beginsWith
        rw [List.isEmpty_iff.mp hrest, List.append_nil] at hf
        refine ⟨t, ht.isFormed, ?_, ht.sentence_eq.symm.trans hs, Nat.le_of_lt_succ hn⟩
        rw [hf, hy]
      · cases h

/-- Exactly the expressions of the grammar that are not nested too deep are read. -/
theorem sentence_eq_ok_iff {lexing : Lexing} {s : Sentence} :
    sentence lexing = .ok s ↔
      ∃ t : Tree, t.IsA .expression ∧ t.yield = lexing.lexemes.map Lexeme.token ∧
        t.sentence = s ∧ t.nesting ≤ maxNesting := by
  constructor
  · intro h
    obtain ⟨t, ht, hrest⟩ := exists_tree_of_sentence h
    exact ⟨t, Tree.isA_expression_iff.mpr ht, hrest⟩
  · rintro ⟨t, ht, hy, rfl, hn⟩
    exact (sentence_of_yield (Tree.isA_expression_iff.mp ht) hy).1 hn

/-- Only where there are no lexemes is the expression empty. -/
theorem sentence_eq_empty_iff {lexing : Lexing} :
    sentence lexing = .error .empty ↔ lexing.lexemes = [] := by
  constructor
  · intro h
    rw [sentence] at h
    split at h
    · next hnil => exact List.isEmpty_iff.mp hnil
    · cases hp : expression lexing.finish (maxNesting + 1) 0 lexing.lexemes with
      | error e =>
        rw [hp] at h
        have he : e = .empty := Except.error.inj h
        have hw : IsWithin e := failsWithin_expression lexing.finish (maxNesting + 1) hp
        rw [he] at hw
        exact hw.elim
      | ok p =>
        rw [hp] at h
        change (if p.rest.isEmpty then Except.ok p.sentence else _) = _ at h
        split at h <;> cases h
  · intro h
    rw [sentence, h]
    rfl

end Parser

namespace Sentence

/-- A text is a sentence when its tokens are. -/
theorem parse_eq_ok_iff {text : String} {s : Sentence} :
    parse text = .ok s ↔
      ∃ lexing, Lexing.ofText text = .ok lexing ∧ Parser.sentence lexing = .ok s := by
  rw [parse_eq]
  cases Lexing.ofText text with
  | error e => simp
  | ok lexing => simp

/-- A text is empty when it has no tokens. -/
theorem parse_eq_empty_iff {text : String} :
    parse text = .error .empty ↔ ∀ c ∈ text.toList, isBlank c = true := by
  rw [← Lexing.exists_ofText_eq_nil_iff, parse_eq]
  cases Lexing.ofText text with
  | error e => simp
  | ok lexing =>
    change Parser.sentence lexing = .error .empty ↔ _
    rw [Parser.sentence_eq_empty_iff]
    constructor
    · intro h
      exact ⟨lexing.finish, by rw [← h]⟩
    · rintro ⟨finish, h⟩
      rw [Except.ok.inj h]

/-- Reading accepts exactly the expressions of the grammar that are nested at most 256 levels
deep, each for the one sentence it stands for, and calls exactly the blank texts empty. -/
theorem parse_accepts_grammar (text : String) :
    (∀ s, parse text = .ok s ↔
      ∃ lexing, Lexing.ofText text = .ok lexing ∧ ∃ t : Tree, t.IsA .expression ∧
        t.yield = lexing.lexemes.map Lexeme.token ∧ t.sentence = s ∧ t.nesting ≤ 256) ∧
    (∀ t u : Tree, t.IsA .expression → u.IsA .expression → t.yield = u.yield → t = u) ∧
    (parse text = .error .empty ↔ ∀ c ∈ text.toList, isBlank c = true) := by
  refine ⟨fun s ↦ ?_, fun t u ht hu hy ↦ ?_, parse_eq_empty_iff⟩
  · rw [parse_eq_ok_iff]
    constructor
    · rintro ⟨lexing, hl, hs⟩
      exact ⟨lexing, hl, Parser.sentence_eq_ok_iff.mp hs⟩
    · rintro ⟨lexing, hl, ht⟩
      exact ⟨lexing, hl, Parser.sentence_eq_ok_iff.mpr ht⟩
  · have htf : t.IsFormed := Tree.isA_expression_iff.mp ht
    have huf : u.IsFormed := Tree.isA_expression_iff.mp hu
    exact htf.eq_of_yield_eq huf hy

end Sentence

end Sentential

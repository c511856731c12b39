import Sentential.Proofs.Sentence.Errors
import Sentential.Proofs.Token.Decomposition

/-!
# Labels as texts

A text names a variable exactly if it is read as one label and nothing else, and then it is the
sentence of that variable alone. Every label in a text names a variable, so no text is refused
because of one.
-/

namespace Sentential

/-- The texts that name variables are the labels. -/
theorem Variable.exists_ofLabel_eq_ok_iff {label : String} :
    (∃ v, ofLabel label = .ok v) ↔ isLabel label.toList = true := by
  constructor
  · rintro ⟨v, hv⟩
    rw [← ofLabel_eq_ok_iff.mp hv]
    exact v.isLabel_label
  · intro h
    exact ⟨⟨label, h⟩, ofLabel_eq_ok_iff.mpr rfl⟩

namespace Lexing

/-- A label is read as one lexeme. -/
theorem ofText_of_isLabel {text : String} (h : isLabel text.toList = true) :
    ofText text = .ok ⟨[⟨.label text, 0⟩], text.utf8ByteSize⟩ := by
  have hends : Layout.EndsBefore (.label text) [] := fun c hc ↦ by cases hc
  have hblank : Layout.IsBlank ⟨[([], .label text)], []⟩ := by simp [Layout.IsBlank]
  have htext : Layout.text ⟨[([], .label text)], []⟩ = text.toList := List.append_nil _
  rw [ofText_of_isCanonical ⟨hblank, h, hends, trivial⟩ htext, Layout.lexing, htext,
    utf8Length_toList]
  rfl

/-- Every label in a text names a variable. -/
theorem exists_ofLabel_of_mem {text label : String} {lexing : Lexing} {lexeme : Lexeme}
    (h : ofText text = .ok lexing) (hm : lexeme ∈ lexing.lexemes)
    (hl : lexeme.token = .label label) : ∃ v, Variable.ofLabel label = .ok v := by
  have hword : lexeme.token.IsWord := isWord_of_scan h lexeme hm
  rw [hl] at hword
  exact Variable.exists_ofLabel_eq_ok_iff.mpr hword

end Lexing

namespace Sentence

/-- A label is the sentence of its variable. -/
theorem parse_label (v : Variable) : parse v.label = .ok (.atom v) := by
  have htree : (Grammar.Tree.label v).IsA .expression :=
    .ofDisjunction (.ofConjunction (.ofNegation (.ofPrimary (.label v))))
  exact parse_eq_ok_iff.mpr ⟨_, Lexing.ofText_of_isLabel v.isLabel_label,
    Parser.sentence_eq_ok_iff.mpr ⟨_, htree, rfl, rfl, Nat.zero_le _⟩⟩

/-- No text is refused because of a label. -/
theorem parse_ne_label (text : String) (e : LabelError) : parse text ≠ .error (.label e) := by
  intro h
  cases hread : Lexing.ofText text with
  | error u =>
    rw [parse_eq, hread] at h
    cases h
  | ok lexing =>
    by_cases hempty : lexing.lexemes = []
    · rw [parse_eq, hread] at h
      change Parser.sentence lexing = _ at h
      rw [Parser.sentence_eq_empty_iff.mpr hempty] at h
      cases h
    · -- the first error of a text with tokens is about depth or about an unexpected token
      obtain ⟨i, -, state, -, he⟩ := (parse_eq_error_iff hread hempty).mp h
      rcases Pending.State.error?_cases he with he | he <;> cases he

/-- A text names a variable exactly if it is read as one label that takes all of the text, and
exactly if it is the sentence of a variable of that label. Every label that a text is read with
names a variable, and no text is refused because one does not. -/
theorem label_readings_agree (text : String) :
    ((∃ v, Variable.ofLabel text = .ok v) ↔
      Lexing.ofText text = .ok ⟨[⟨.label text, 0⟩], text.utf8ByteSize⟩) ∧
    (∀ v, Variable.ofLabel text = .ok v ↔ v.label = text ∧ parse text = .ok (.atom v)) ∧
    (∀ lexing, Lexing.ofText text = .ok lexing → ∀ lexeme ∈ lexing.lexemes, ∀ label,
      lexeme.token = .label label → ∃ v, Variable.ofLabel label = .ok v) ∧
    ∀ e, parse text ≠ .error (.label e) := by
  refine ⟨⟨?_, ?_⟩, fun v ↦ ?_, fun lexing h lexeme hm label hl ↦
    Lexing.exists_ofLabel_of_mem h hm hl, parse_ne_label text⟩
  · intro h
    exact Lexing.ofText_of_isLabel (Variable.exists_ofLabel_eq_ok_iff.mp h)
  · intro h
    exact Lexing.exists_ofLabel_of_mem h List.mem_cons_self rfl
  · rw [Variable.ofLabel_eq_ok_iff]
    constructor
    · rintro rfl
      exact ⟨rfl, parse_label v⟩
    · exact And.left

/-- The labels between the symbols of a text are names of variables, the whole text is none. -/
theorem label_readings_agree_for_negation :
    Lexing.ofText "-b_2" = .ok ⟨[⟨.negation, 0⟩, ⟨.label "b_2", 1⟩], 4⟩ ∧
    (∃ v, Variable.ofLabel "b_2" = .ok v) ∧
    ¬∃ v, Variable.ofLabel "-b_2" = .ok v := by
  have hsign : Token.read? ['-', 'b', '_', '2'] = some (.negation, ['b', '_', '2']) := rfl
  have hlabel : Token.read? ['b', '_', '2'] = some (.label "b_2", []) := rfl
  have hread : Lexing.ofText "-b_2" = .ok ⟨[⟨.negation, 0⟩, ⟨.label "b_2", 1⟩], 4⟩ := by
    change Lexing.scan 0 ['-', 'b', '_', '2'] = _
    rw [Lexing.scan_of_read? rfl hsign, Lexing.scan_of_read? rfl hlabel, Lexing.scan_nil]
    rfl
  obtain ⟨hwhole, -, hlabels, -⟩ := label_readings_agree "-b_2"
  refine ⟨hread, hlabels _ hread ⟨.label "b_2", 1⟩ (by decide) "b_2" rfl, fun h ↦ ?_⟩
  have hone := hwhole.mp h
  rw [hread] at hone
  cases hone

end Sentence

end Sentential

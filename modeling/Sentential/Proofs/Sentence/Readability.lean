import Sentential.Proofs.Text.Separated
import Sentential.Proofs.Token.Layouts
import Sentential.Sentence.Display

/-!
# Unique readability

The text of a sentence determines the sentence, sets included. An operand ends where a label would
end, since no connective stands bare as an operand; a whole sentence may go on after a space with a
connective, so it ends only where the parentheses or braces around it close or a comma stands.
-/

namespace Sentential

/-- A label ends before the given text. -/
def EndsLabel (after : List Char) : Prop := ∀ c ∈ after.head?, isLabelPart c = false

/-- A sentence ends before the given text, as the whole text or as a part of a longer one. -/
def EndsSentence (after : List Char) : Prop := ∀ c ∈ after.head?, c = ')' ∨ c = ',' ∨ c = '}'

/-- What ends a sentence ends a label. -/
theorem EndsSentence.endsLabel {after : List Char} (h : EndsSentence after) : EndsLabel after := by
  intro c hc
  rcases h c hc with rfl | rfl | rfl <;> decide

/-- What ends an item of a list ends a sentence. -/
theorem EndsItem.endsSentence {after : List Char} (h : EndsItem after) : EndsSentence after :=
  fun c hc ↦ .inr (h c hc)

/-- No sentence ends before a space. -/
theorem not_endsSentence_space (after : List Char) : ¬EndsSentence (' ' :: after) := by
  intro h
  have hspace := h ' ' rfl
  revert hspace
  decide

/-- Connectives between spaces are told apart. -/
theorem Connective.symbol_append_inj {c d : Connective} {after after' : List Char}
    (h : c.symbol.toList ++ ' ' :: after = d.symbol.toList ++ ' ' :: after') :
    c = d ∧ after = after' := by
  have hword (k : Connective) : (Token.connective k).IsWord := trivial
  obtain ⟨he, hafter⟩ := Token.spelling_append_inj (hword c) (hword d)
    (Layout.endsBefore_connective_space c after) (Layout.endsBefore_connective_space d after') h
  exact ⟨Token.connective.inj he, (List.cons.inj hafter).2⟩

namespace Variable

/-- Labels that end are told apart. -/
theorem label_append_inj {v w : Variable} {after after' : List Char} (ha : EndsLabel after)
    (ha' : EndsLabel after') (h : v.label.toList ++ after = w.label.toList ++ after') :
    v = w ∧ after = after' := by
  have hv : (Token.label v.label).IsWord := v.isLabel_label
  have hw : (Token.label w.label).IsWord := w.isLabel_label
  obtain ⟨he, hafter⟩ := Token.spelling_append_inj hv hw ha ha' h
  exact ⟨Variable.ext (Token.label.inj he), hafter⟩

/-- Labels begin as labels may. -/
theorem label_append_ne (v : Variable) {c : Char} (hc : isLabelStart c = false)
    (after after' : List Char) : v.label.toList ++ after ≠ c :: after' := by
  obtain ⟨d, others, he, hd, -⟩ := Token.exists_of_isLabel v.isLabel_label
  rw [he]
  intro h
  rw [(List.cons.inj h).1, hc] at hd
  cases hd

end Variable

namespace Sentence

/-- Whether the text of a sentence can be an operand without parentheses around it, as all are
but those of connectives. -/
def isClosed : Sentence → Bool
  | binary .. => false
  | atom _ | negation _ | set _ => true

/-- The texts of a sentence that end where a label would: the bare one, if it is closed, and the one
in parentheses. -/
inductive IsPiece (s : Sentence) : List Char → Prop where
  | bare : s.isClosed = true → IsPiece s s.text.toList
  | grouped : IsPiece s ('(' :: (s.text.toList ++ [')']))

/-- Every operand is such a text. -/
theorem isPiece_operand (s : Sentence) :
    s.IsPiece (parenthesise s.hasMultiple s.text).toList := by
  cases hm : s.hasMultiple with
  | true =>
    have htext := parenthesise_true_append s.text []
    rw [List.append_nil] at htext
    rw [htext]
    exact .grouped
  | false =>
    refine .bare ?_
    cases s with
    | binary c left right => cases hm
    | atom v => rfl
    | negation target => rfl
    | set members => rfl

/-- A closed text begins neither with a parenthesis nor with a closing brace. -/
theorem exists_text_eq_cons_of_isClosed {s : Sentence} (h : s.isClosed = true) :
    ∃ c rest, s.text.toList = c :: rest ∧ c ≠ '(' ∧ c ≠ '}' := by
  cases s with
  | binary c left right => cases h
  | atom v =>
    obtain ⟨c, others, he, hc, -⟩ := Token.exists_of_isLabel v.isLabel_label
    refine ⟨c, others, by rw [text, he], ?_, ?_⟩
    · rintro rfl
      exact absurd hc (by decide)
    · rintro rfl
      exact absurd hc (by decide)
  | negation target =>
    have htext := text_negation_append target []
    rw [List.append_nil] at htext
    exact ⟨'-', _, htext, by decide, by decide⟩
  | set members =>
    have htext := text_set_append members []
    rw [List.append_nil] at htext
    exact ⟨'{', _, htext, by decide, by decide⟩

/-- No text of a sentence that ends where a label would begins with a closing brace. -/
theorem IsPiece.exists_eq_cons {s : Sentence} {piece : List Char} (h : s.IsPiece piece) :
    ∃ c rest, piece = c :: rest ∧ c ≠ '}' := by
  cases h with
  | bare hs =>
    obtain ⟨c, rest, he, -, hc⟩ := exists_text_eq_cons_of_isClosed hs
    exact ⟨c, rest, he, hc⟩
  | grouped => exact ⟨'(', _, rfl, by decide⟩

/-- No text of a sentence begins with a closing brace. -/
theorem exists_text_eq_cons (s : Sentence) : ∃ c rest, s.text.toList = c :: rest ∧ c ≠ '}' := by
  cases hs : s.isClosed with
  | true => exact (IsPiece.bare hs).exists_eq_cons
  | false =>
    cases s with
    | binary c left right =>
      obtain ⟨d, rest, he, hd⟩ := left.isPiece_operand.exists_eq_cons
      have htext := text_binary_append c left right []
      rw [List.append_nil, he] at htext
      exact ⟨d, _, htext, hd⟩
    | atom v => cases hs
    | negation target => cases hs
    | set members => cases hs

/-! ### Telling texts apart -/

/-- Two texts of sentences, continued to where they end, are the same only for the same sentence,
which then ends at the same place. -/
def ToldApart (Ends : List Char → Prop) (s t : Sentence) (p p' : List Char) : Prop :=
  ∀ ⦃after after' : List Char⦄, Ends after → Ends after' → p ++ after = p' ++ after' →
    s = t ∧ after = after'

/-- Telling apart works both ways. -/
theorem ToldApart.symm {Ends : List Char → Prop} {s t : Sentence} {p p' : List Char}
    (h : ToldApart Ends s t p p') : ToldApart Ends t s p' p := by
  intro after after' ha ha' he
  obtain ⟨rfl, rfl⟩ := h ha' ha he.symm
  exact ⟨rfl, rfl⟩

/-- Parentheses make whole sentences into operands. -/
theorem ToldApart.grouped {s t : Sentence}
    (h : ToldApart EndsSentence s t s.text.toList t.text.toList) :
    ToldApart EndsLabel s t ('(' :: (s.text.toList ++ [')']))
      ('(' :: (t.text.toList ++ [')'])) := by
  intro after after' _ _ he
  have hclosing (rest : List Char) : EndsSentence (')' :: rest) :=
    fun c hc ↦ .inl (Option.some.inj hc).symm
  rw [List.cons_append, List.cons_append, List.append_assoc, List.append_assoc] at he
  obtain ⟨rfl, hafter⟩ := h (hclosing after) (hclosing after') (List.cons.inj he).2
  exact ⟨rfl, (List.cons.inj hafter).2⟩

/-- A closed text does not begin with a parenthesis. -/
theorem toldApart_grouped_of_isClosed {s : Sentence} (hs : s.isClosed = true)
    (Ends : List Char → Prop) (t : Sentence) (rest : List Char) :
    ToldApart Ends s t s.text.toList ('(' :: rest) := by
  intro after after' _ _ he
  obtain ⟨c, others, hc, hne, -⟩ := exists_text_eq_cons_of_isClosed hs
  rw [hc] at he
  exact absurd (List.cons.inj he).1 hne

/-- What is told apart from the first operand of a connective is so from the whole, which goes on
with a space. -/
theorem ToldApart.binary {s left : Sentence} {p : List Char}
    (h : ToldApart EndsLabel s left p (parenthesise left.hasMultiple left.text).toList)
    (c : Connective) (right : Sentence) :
    ToldApart EndsSentence s (binary c left right) p (binary c left right).text.toList := by
  intro after after' ha ha' he
  rw [text_binary_append] at he
  obtain ⟨-, rfl⟩ := h ha.endsLabel (Layout.not_isLabelPart_head (by decide) _) he
  exact absurd ha (not_endsSentence_space _)

/-- Where it ends, a sentence is told apart from all others. -/
structure IsReadable (s : Sentence) : Prop where
  whole : ∀ t, ToldApart EndsSentence s t s.text.toList t.text.toList
  piece : ∀ {p}, s.IsPiece p → ∀ {t p'}, t.IsPiece p' → ToldApart EndsLabel s t p p'

/-- A sentence that is read as a whole is read as an operand, if it is read without parentheses
where it needs none. -/
theorem isReadable_of_whole {s : Sentence}
    (hwhole : ∀ t, ToldApart EndsSentence s t s.text.toList t.text.toList)
    (hbare : s.isClosed = true → ∀ t, t.isClosed = true →
      ToldApart EndsLabel s t s.text.toList t.text.toList) : s.IsReadable := by
  refine ⟨hwhole, fun hp t p' hp' ↦ ?_⟩
  cases hp with
  | bare hs =>
    cases hp' with
    | bare ht => exact hbare hs t ht
    | grouped => exact toldApart_grouped_of_isClosed hs _ t _
  | grouped =>
    cases hp' with
    | bare ht => exact (toldApart_grouped_of_isClosed ht _ s _).symm
    | grouped => exact (hwhole t).grouped

/-- A closed sentence is read if it is told apart from the other closed ones. -/
theorem isReadable_of_isClosed {s : Sentence} (hs : s.isClosed = true)
    (h : ∀ t, t.isClosed = true → ToldApart EndsLabel s t s.text.toList t.text.toList) :
    s.IsReadable := by
  have hpiece {t : Sentence} {p' : List Char} (ht : t.IsPiece p') :
      ToldApart EndsLabel s t s.text.toList p' := by
    cases ht with
    | bare ht => exact h t ht
    | grouped => exact toldApart_grouped_of_isClosed hs _ t _
  refine isReadable_of_whole (fun t ↦ ?_) fun _ ↦ h
  cases t with
  | binary c left right => exact (hpiece left.isPiece_operand).binary c right
  | atom v => exact fun _ _ ha ha' ↦ h (.atom v) rfl ha.endsLabel ha'.endsLabel
  | negation target => exact fun _ _ ha ha' ↦ h (.negation target) rfl ha.endsLabel ha'.endsLabel
  | set members => exact fun _ _ ha ha' ↦ h (.set members) rfl ha.endsLabel ha'.endsLabel

/-- A connective is read after its left operand, and before its right one. -/
theorem IsReadable.binary {left right : Sentence} (hl : left.IsReadable) (hr : right.IsReadable)
    (c : Connective) : (binary c left right).IsReadable := by
  have hclosed {t : Sentence} (ht : t.isClosed = true) : ToldApart EndsSentence
      (.binary c left right) t (Sentence.binary c left right).text.toList t.text.toList :=
    ((hl.piece left.isPiece_operand (.bare ht)).symm.binary c right).symm
  refine isReadable_of_whole (fun t ↦ ?_) fun h ↦ absurd h Bool.false_ne_true
  cases t with
  | binary d left' right' =>
    intro after after' ha ha' he
    rw [text_binary_append, text_binary_append] at he
    obtain ⟨rfl, hsymbol⟩ := hl.piece left.isPiece_operand left'.isPiece_operand
      (Layout.not_isLabelPart_head (by decide) _) (Layout.not_isLabelPart_head (by decide) _) he
    obtain ⟨rfl, hright⟩ := Connective.symbol_append_inj (List.cons.inj hsymbol).2
    obtain ⟨rfl, hafter⟩ := hr.piece right.isPiece_operand right'.isPiece_operand ha.endsLabel
      ha'.endsLabel hright
    exact ⟨rfl, hafter⟩
  | atom v => exact hclosed rfl
  | negation target => exact hclosed rfl
  | set members => exact hclosed rfl

/-- A label is read to its end. -/
theorem isReadable_atom (v : Variable) : (atom v).IsReadable := by
  refine isReadable_of_isClosed rfl fun t ht after after' ha ha' he ↦ ?_
  cases t with
  | binary c left right => cases ht
  | atom w =>
    obtain ⟨rfl, hafter⟩ := Variable.label_append_inj ha ha' he
    exact ⟨rfl, hafter⟩
  | negation target =>
    rw [text_negation_append] at he
    exact absurd he (v.label_append_ne (by decide) _ _)
  | set members =>
    rw [text_set_append] at he
    exact absurd he (v.label_append_ne (by decide) _ _)

/-- A negation is read when its target is. -/
theorem IsReadable.negation {target : Sentence} (h : target.IsReadable) :
    (negation target).IsReadable := by
  refine isReadable_of_isClosed rfl fun t ht after after' ha ha' he ↦ ?_
  rw [text_negation_append] at he
  cases t with
  | binary c left right => cases ht
  | atom w => exact absurd he.symm (w.label_append_ne (by decide) _ _)
  | negation target' =>
    rw [text_negation_append] at he
    obtain ⟨rfl, hafter⟩ := h.piece target.isPiece_operand target'.isPiece_operand ha ha'
      (List.cons.inj he).2
    exact ⟨rfl, hafter⟩
  | set members =>
    rw [text_set_append] at he
    exact absurd (List.cons.inj he).1 (by decide)

/-- A set is read member by member. -/
theorem isReadable_set {members : List Sentence} (h : ∀ s ∈ members, s.IsReadable) :
    (set members).IsReadable := by
  have hitem : ∀ s ∈ members, IsReadableItem (fun s : Sentence ↦ s.text.toList) s :=
    fun s hs t _ _ ha ha' he ↦ (h s hs).whole t ha.endsSentence ha'.endsSentence he
  refine isReadable_of_isClosed rfl fun t ht after after' _ _ he ↦ ?_
  rw [text_set_append] at he
  cases t with
  | binary c left right => cases ht
  | atom w => exact absurd he.symm (w.label_append_ne (by decide) _ _)
  | negation target =>
    rw [text_negation_append] at he
    exact absurd (List.cons.inj he).1 (by decide)
  | set members' =>
    have hlist (ss : List Sentence) : (", ".intercalate (memberTexts ss)).toList =
        [',', ' '].intercalate (ss.map fun s ↦ s.text.toList) := by
      rw [String.toList_intercalate, memberTexts_eq_map, List.map_map]
      rfl
    rw [text_set_append, hlist, hlist] at he
    obtain ⟨rfl, hafter⟩ := listed_append_inj hitem exists_text_eq_cons (List.cons.inj he).2
    exact ⟨rfl, hafter⟩

/-- Every sentence is told apart from all others by its text. -/
theorem isReadable (s : Sentence) : s.IsReadable := by
  induction s with
  | atom v => exact isReadable_atom v
  | negation target ih => exact ih.negation
  | binary c left right ihl ihr => exact ihl.binary ihr c
  | set members ih => exact isReadable_set ih

/-- What is told apart where it ends is told apart where the text ends. -/
theorem IsReadable.eq_of_text_eq {s t : Sentence} (h : s.IsReadable) (ht : s.text = t.text) :
    s = t := by
  have hends : EndsSentence [] := fun c hc ↦ nomatch hc
  exact (h.whole t hends hends (by rw [ht])).1

/-- Sentences have the same text only if they are equal, whatever sets stand in them. -/
theorem text_inj {s t : Sentence} : s.text = t.text ↔ s = t := by
  constructor
  · exact s.isReadable.eq_of_text_eq
  · rintro rfl
    rfl

end Sentence

end Sentential

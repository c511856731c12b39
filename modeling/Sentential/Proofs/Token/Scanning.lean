import Sentential.Token.Layout
import Sentential.Token.Lexer

/-!
# The steps of scanning

One equation for each thing that a text can go on with: its end, a blank character, a token that
ends where it has to, and anything else. Texts without tokens are the blank ones.
-/

namespace Sentential

/-! ### Bytes -/

/-- The bytes of two texts in a row are those of both. -/
theorem utf8Length_append (cs ds : List Char) :
    utf8Length (cs ++ ds) = utf8Length cs + utf8Length ds := by
  induction cs with
  | nil => exact (Nat.zero_add _).symm
  | cons c cs ih => rw [List.cons_append, utf8Length, ih, utf8Length, Nat.add_assoc]

/-- Counting the bytes of the characters counts the bytes of the text. -/
theorem utf8Length_toList (text : String) : utf8Length text.toList = text.utf8ByteSize := by
  have h (cs : List Char) : utf8Length cs = (String.ofList cs).utf8ByteSize := by
    induction cs with
    | nil => rfl
    | cons c cs ih =>
      rw [utf8Length, ih, String.ofList_cons, String.utf8ByteSize_append,
        String.utf8ByteSize_singleton]
  rw [h, String.ofList_toList]

/-- A text whose characters all take one byte has as many bytes as characters. -/
theorem utf8ByteSize_eq_length {text : String} (h : ∀ c ∈ text.toList, c.utf8Size = 1) :
    text.utf8ByteSize = text.length := by
  rw [← utf8Length_toList, ← String.length_toList]
  generalize text.toList = cs at h ⊢
  induction cs with
  | nil => rfl
  | cons c cs ih =>
    rw [List.forall_mem_cons] at h
    rw [utf8Length, h.1, ih h.2, List.length_cons, Nat.add_comm]

/-- A text has no more characters than bytes. -/
theorem length_le_utf8ByteSize (text : String) : text.length ≤ text.utf8ByteSize := by
  rw [← utf8Length_toList, ← String.length_toList]
  induction text.toList with
  | nil => exact Nat.le_refl 0
  | cons c cs ih =>
    have hpos : 0 < c.utf8Size := c.utf8Size_pos
    rw [List.length_cons, utf8Length]
    omega

/-! ### Characters -/

/-- What may begin a label may also follow in it. -/
theorem isLabelPart_of_isLabelStart {c : Char} (h : isLabelStart c = true) :
    isLabelPart c = true := by
  have hlower : c.isLower = true := h
  change (c.isUpper || c.isLower || c.isDigit || c == '_') = true
  rw [hlower, Bool.or_true, Bool.true_or, Bool.true_or]

/-- The characters of labels are between the digits and the lowercase letters. -/
theorem toNat_of_isLabelPart {c : Char} (h : isLabelPart c = true) :
    48 ≤ c.toNat ∧ c.toNat ≤ 122 := by
  rcases Bool.or_eq_true_iff.mp h with halphanum | hunderscore
  · rcases Bool.or_eq_true_iff.mp halphanum with halpha | hdigit
    · rcases Bool.or_eq_true_iff.mp halpha with hupper | hlower
      · obtain ⟨hge, hle⟩ := of_decide_eq_true hupper
        exact ⟨Nat.le_trans (by decide) (UInt32.le_iff_toNat_le.mp hge),
          Nat.le_trans (UInt32.le_iff_toNat_le.mp hle) (by decide)⟩
      · obtain ⟨hge, hle⟩ := Bool.and_eq_true_iff.mp hlower
        exact ⟨Nat.le_trans (by decide) (UInt32.le_iff_toNat_le.mp (of_decide_eq_true hge)),
          UInt32.le_iff_toNat_le.mp (of_decide_eq_true hle)⟩
    · obtain ⟨hge, hle⟩ := Bool.and_eq_true_iff.mp hdigit
      exact ⟨UInt32.le_iff_toNat_le.mp (of_decide_eq_true hge),
        Nat.le_trans (UInt32.le_iff_toNat_le.mp (of_decide_eq_true hle)) (by decide)⟩
  · rw [beq_iff_eq.mp hunderscore]
    decide

/-- No label has a blank in it. -/
theorem not_isBlank_of_isLabelPart {c : Char} (h : isLabelPart c = true) : isBlank c = false := by
  have hcode := toNat_of_isLabelPart h
  simp only [isBlank, blankRanges, List.any_cons, List.any_nil, Bool.or_false,
    Bool.or_eq_false_iff, decide_eq_false_iff_not]
  omega

namespace Token

/-! ### Tokens -/

/-- A valid label is a first character and others. -/
theorem exists_of_isLabel {cs : List Char} (h : isLabel cs = true) :
    ∃ c others, cs = c :: others ∧ isLabelStart c = true ∧ ∀ d ∈ others, isLabelPart d = true := by
  cases cs with
  | nil => cases h
  | cons c others =>
    rw [isLabel, Bool.and_eq_true, List.all_eq_true] at h
    exact ⟨c, others, rfl, h.1, h.2⟩

/-- The written form of a token begins with a character that is not blank. -/
theorem exists_spelling_eq_cons {token : Token} (hw : token.IsWord) :
    ∃ c others, token.spelling.toList = c :: others ∧ isBlank c = false := by
  cases token with
  | label text =>
    obtain ⟨c, others, he, hc, -⟩ := exists_of_isLabel hw
    exact ⟨c, others, he, not_isBlank_of_isLabelPart (isLabelPart_of_isLabelStart hc)⟩
  | negation => exact ⟨'-', [], rfl, by decide⟩
  | connective c =>
    cases c with
    | conjunction => exact ⟨'^', [], rfl, by decide⟩
    | disjunction => exact ⟨'|', [], rfl, by decide⟩
    | implication => exact ⟨'=', ['>'], rfl, by decide⟩
    | reduction => exact ⟨'<', ['='], rfl, by decide⟩
    | equivalence => exact ⟨'<', ['=', '>'], rfl, by decide⟩
  | leftParenthesis => exact ⟨'(', [], rfl, by decide⟩
  | rightParenthesis => exact ⟨')', [], rfl, by decide⟩

/-- What is left after a run does not continue it. -/
theorem stop_of_mem_head?_dropWhile {p : Char → Bool} {cs : List Char} {c : Char}
    (h : c ∈ (cs.dropWhile p).head?) : p c = false := by
  have hstop := List.head?_dropWhile_not p cs
  rw [Option.mem_def.mp h] at hstop
  exact hstop

/-- A run that ends before what does not continue it is what is taken, and the rest is left. -/
theorem takeWhile_dropWhile_of_stop {p : Char → Bool} {cs after : List Char}
    (hp : ∀ c ∈ cs, p c = true) (hs : ∀ c ∈ after.head?, p c = false) :
    (cs ++ after).takeWhile p = cs ∧ (cs ++ after).dropWhile p = after := by
  have h : after.takeWhile p = [] ∧ after.dropWhile p = after := by
    cases after with
    | nil => exact ⟨rfl, rfl⟩
    | cons c after =>
      have hc : p c = false := hs c rfl
      rw [List.takeWhile_cons, List.dropWhile_cons, hc]
      exact ⟨rfl, rfl⟩
  rw [List.takeWhile_append_of_pos hp, List.dropWhile_append_of_pos hp, h.1, h.2, List.append_nil]
  exact ⟨rfl, rfl⟩

/-- A token that ends where it has to is read back from its written form. -/
theorem read?_spelling_append {token : Token} {after : List Char} (hw : token.IsWord)
    (he : Layout.EndsBefore token after) :
    read? (token.spelling.toList ++ after) = some (token, after) := by
  cases token with
  | label text =>
    obtain ⟨c, others, ht, hc, ho⟩ := exists_of_isLabel hw
    obtain ⟨htake, hdrop⟩ := takeWhile_dropWhile_of_stop ho he
    have hread : readLabel? (text.toList ++ after) = some (label text, after) := by
      rw [ht, List.cons_append, readLabel?, if_pos hc, htake, hdrop, ← ht, String.ofList_toList]
    rw [read?, spelling, hread]
    rfl
  | negation => rfl
  | connective c =>
    cases c with
    | conjunction => rfl
    | disjunction => rfl
    | implication => rfl
    | reduction =>
      have hread : readSymbol? ('<' :: '=' :: after) = some (connective .reduction, after) := by
        rw [readSymbol?]
        intro others h
        exact he (by rw [h]; rfl)
      exact hread
    | equivalence => rfl
  | leftParenthesis => rfl
  | rightParenthesis => rfl

/-- Tokens that end where they have to are told apart by the texts that begin with them. -/
theorem spelling_append_inj {token token' : Token} {after after' : List Char} (hw : token.IsWord)
    (hw' : token'.IsWord) (he : Layout.EndsBefore token after)
    (he' : Layout.EndsBefore token' after')
    (h : token.spelling.toList ++ after = token'.spelling.toList ++ after') :
    token = token' ∧ after = after' := by
  have hread := read?_spelling_append hw he
  rw [h, read?_spelling_append hw' he'] at hread
  cases hread
  exact ⟨rfl, rfl⟩

/-- What is read as a token is a word. -/
theorem isWord_of_read? {cs after : List Char} {token : Token}
    (h : read? cs = some (token, after)) : token.IsWord := by
  rcases Option.or_eq_some_iff.mp h with h | ⟨-, h⟩
  · cases cs with
    | nil => cases h
    | cons c rest =>
      rw [readLabel?] at h
      split at h
      · next hstart =>
        cases h
        have hparts : (rest.takeWhile isLabelPart).all isLabelPart = true := List.all_takeWhile
        rw [IsWord, String.toList_ofList, isLabel, hstart, hparts]
        rfl
      · cases h
  · unfold readSymbol? at h
    split at h <;> cases h <;> trivial

end Token

namespace Lexing

/-! ### Scanning -/

/-- The lexing with some lexemes before it. -/
def prepend (first : List Lexeme) (later : Lexing) : Lexing :=
  ⟨first ++ later.lexemes, later.finish⟩

/-- The end of the text has no tokens. -/
@[simp] theorem scan_nil (position : Nat) : scan position [] = .ok ⟨[], position⟩ := by
  rw [scan]

/-- A blank is passed over. -/
theorem scan_cons_of_isBlank {c : Char} (h : isBlank c = true) (position : Nat)
    (rest : List Char) : scan position (c :: rest) = scan (position + c.utf8Size) rest := by
  rw [scan, if_pos h]

/-- A gap is passed over. -/
theorem scan_gap_append {gap : List Char} (h : ∀ c ∈ gap, isBlank c = true) (position : Nat)
    (rest : List Char) : scan position (gap ++ rest) = scan (position + utf8Length gap) rest := by
  induction gap generalizing position with
  | nil => rfl
  | cons c gap ih =>
    have hgap : ∀ d ∈ gap, isBlank d = true := fun d hd ↦ h d (List.mem_cons_of_mem c hd)
    rw [List.cons_append, scan_cons_of_isBlank (h c List.mem_cons_self), ih hgap,
      utf8Length, Nat.add_assoc]

/-- A token is read, and the scan goes on after it. -/
theorem scan_of_read? {c : Char} {rest after : List Char} {token : Token}
    (hc : isBlank c = false) (h : Token.read? (c :: rest) = some (token, after)) (position : Nat) :
    scan position (c :: rest) =
      (scan (position + utf8Length token.spelling.toList) after).map
        (prepend [⟨token, position⟩]) := by
  rw [scan, if_neg (by rw [hc]; decide)]
  split
  · next hn =>
    rw [h] at hn
    cases hn
  · next token' after' hs =>
    rw [h] at hs
    cases hs
    rw [utf8Length_toList]
    cases scan (position + token.spelling.utf8ByteSize) after <;> rfl

/-- A text that does not go on with a token is an error there. -/
theorem scan_of_not_read? {c : Char} {rest : List Char} (hc : isBlank c = false)
    (h : Token.read? (c :: rest) = none) (position : Nat) :
    scan position (c :: rest) =
      .error ⟨String.ofList ((c :: rest).takeWhile (!isBlank ·)), position⟩ := by
  rw [scan, if_neg (by rw [hc]; decide)]
  split
  · rfl
  · next token after hs =>
    rw [h] at hs
    cases hs

/-- A written token is scanned as such if it ends where it has to. -/
theorem scan_spelling_append {token : Token} {after : List Char} (hw : token.IsWord)
    (he : Layout.EndsBefore token after) (position : Nat) :
    scan position (token.spelling.toList ++ after) =
      (scan (position + utf8Length token.spelling.toList) after).map
        (prepend [⟨token, position⟩]) := by
  have hread := Token.read?_spelling_append hw he
  obtain ⟨c, others, hcons, hc⟩ := Token.exists_spelling_eq_cons hw
  rw [hcons, List.cons_append] at hread ⊢
  rw [scan_of_read? hc hread position, hcons]

/-- All tokens of a text are words. -/
theorem isWord_of_scan {position : Nat} {cs : List Char} {lexing : Lexing}
    (h : scan position cs = .ok lexing) : ∀ lexeme ∈ lexing.lexemes, lexeme.token.IsWord := by
  -- every token that is read leaves a shorter text
  induction hm : cs.length using Nat.strongRecOn generalizing position cs lexing with
  | ind m ih =>
    subst hm
    cases cs with
    | nil =>
      rw [scan_nil] at h
      cases h
      exact List.forall_mem_nil _
    | cons c rest =>
      cases hc : isBlank c with
      | true =>
        rw [scan_cons_of_isBlank hc] at h
        exact ih rest.length (Nat.lt_succ_self _) h rfl
      | false =>
        cases hread : Token.read? (c :: rest) with
        | none =>
          rw [scan_of_not_read? hc hread] at h
          cases h
        | some found =>
          obtain ⟨token, after⟩ := found
          rw [scan_of_read? hc hread] at h
          cases hlater : scan (position + utf8Length token.spelling.toList) after with
          | error e =>
            rw [hlater] at h
            cases h
          | ok later =>
            rw [hlater] at h
            cases h
            rw [prepend, List.singleton_append, List.forall_mem_cons]
            exact ⟨Token.isWord_of_read? hread,
              ih after.length (Token.length_lt_of_read? hread) hlater rfl⟩

/-- The texts without tokens are the blank ones. -/
theorem exists_scan_eq_nil_iff {position : Nat} {cs : List Char} :
    (∃ finish, scan position cs = .ok ⟨[], finish⟩) ↔ ∀ c ∈ cs, isBlank c = true := by
  induction cs generalizing position with
  | nil => simp
  | cons c rest ih =>
    cases hc : isBlank c with
    | true => rw [scan_cons_of_isBlank hc, ih, List.forall_mem_cons, hc]; simp
    | false =>
      have hblank : ¬∀ d ∈ c :: rest, isBlank d = true := fun h ↦ by
        have := h c List.mem_cons_self
        rw [hc] at this
        cases this
      refine ⟨?_, fun h ↦ absurd h hblank⟩
      rintro ⟨finish, hscan⟩
      cases hread : Token.read? (c :: rest) with
      | none =>
        rw [scan_of_not_read? hc hread] at hscan
        cases hscan
      | some found =>
        obtain ⟨token, after⟩ := found
        rw [scan_of_read? hc hread] at hscan
        cases hs : scan (position + utf8Length token.spelling.toList) after with
        | error e =>
          rw [hs] at hscan
          cases hscan
        | ok later =>
          rw [hs] at hscan
          cases hscan

/-- A text has no tokens exactly when it is blank. -/
theorem exists_ofText_eq_nil_iff {text : String} :
    (∃ finish, ofText text = .ok ⟨[], finish⟩) ↔ ∀ c ∈ text.toList, isBlank c = true :=
  exists_scan_eq_nil_iff

end Lexing

end Sentential

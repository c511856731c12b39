import Sentential.Proofs.Token.Layouts

/-!
# Every text is laid out in one way

A text is words with blank gaps up to where it ends, or goes on with neither a blank nor a token. If
the words are as long as they can be, there is one such place and one such layout. Reading gives
the words of the layout, or the error that the text goes on with something else.
-/

namespace Sentential

namespace Token

/-- A token is read as far as it goes. -/
theorem endsBefore_of_read? {cs after : List Char} {token : Token}
    (h : read? cs = some (token, after)) : Layout.EndsBefore token after := by
  rcases Option.or_eq_some_iff.mp h with h | ⟨-, h⟩
  · cases cs with
    | nil => cases h
    | cons c rest =>
      rw [readLabel?] at h
      split at h
      · cases h
        exact fun d hd ↦ stop_of_mem_head?_dropWhile hd
      · cases h
  · unfold readSymbol? at h
    split at h <;> cases h <;> try trivial
    -- what is left is `<=`, which is read only where it is not the beginning of `<=>`
    next hnot =>
      intro hhead
      obtain ⟨others, rfl⟩ := List.head?_eq_some_iff.mp hhead
      exact hnot others rfl

/-- Where the written form of a token begins, some token is read. -/
theorem exists_read?_spelling_append {token : Token} (hw : token.IsWord) (after : List Char) :
    ∃ found, read? (token.spelling.toList ++ after) = some found := by
  cases token with
  | label text =>
    obtain ⟨c, others, ht, hc, -⟩ := exists_of_isLabel hw
    rw [spelling, ht, List.cons_append, read?, readLabel?, if_pos hc]
    exact ⟨_, rfl⟩
  | connective c =>
    by_cases he : Layout.EndsBefore (.connective c) after
    · exact ⟨_, read?_spelling_append hw he⟩
    · cases c with
      | reduction =>
        obtain ⟨others, rfl⟩ := List.head?_eq_some_iff.mp (Classical.not_not.mp he)
        exact ⟨_, rfl⟩
      | conjunction | disjunction | implication | equivalence => exact absurd trivial he
  | negation | leftParenthesis | rightParenthesis => exact ⟨_, rfl⟩

/-- No token is read exactly where none begins. -/
theorem read?_eq_none_iff {cs : List Char} :
    read? cs = none ↔ ∀ token : Token, token.IsWord → ¬token.spelling.toList <+: cs := by
  constructor
  · rintro h token hw ⟨after, rfl⟩
    obtain ⟨found, hfound⟩ := exists_read?_spelling_append hw after
    rw [h] at hfound
    cases hfound
  · intro h
    cases hread : read? cs with
    | none => rfl
    | some found =>
      obtain ⟨token, after⟩ := found
      exact absurd ⟨after, (eq_spelling_append_of_read? hread).symm⟩
        (h token (isWord_of_read? hread))

end Token

namespace Layout

/-- The gaps are blank, and the words are as long as they can be before what comes after the
layout. -/
def IsCanonicalBefore (l : Layout) (rest : List Char) : Prop :=
  l.IsBlank ∧ AreLongest l.words (l.tail ++ rest)

/-- A text goes on with neither a blank nor a token, if it goes on at all. -/
structure IsStuck (cs : List Char) : Prop where
  not_blank : ∀ c ∈ cs.head?, isBlank c = false
  not_begins : ∀ token : Token, token.IsWord → ¬token.spelling.toList <+: cs

/-- The end of a text is a place where it does not go on. -/
theorem isStuck_nil : IsStuck [] where
  not_blank := fun _ hc ↦ nomatch hc
  not_begins := by
    intro token hw hp
    obtain ⟨c, others, hcons, -⟩ := Token.exists_spelling_eq_cons hw
    rw [List.prefix_nil.mp hp] at hcons
    cases hcons

/-- Before the end of the text the words are as long as they can be without what follows. -/
theorem isCanonicalBefore_nil {l : Layout} : l.IsCanonicalBefore [] ↔ l.IsCanonical := by
  rw [IsCanonicalBefore, List.append_nil, IsCanonical]

/-- One more word is laid out before others if its gap is blank and it ends before them. -/
theorem isCanonicalBefore_cons {gap tail rest : List Char} {token : Token}
    {words : List (List Char × Token)} :
    IsCanonicalBefore ⟨(gap, token) :: words, tail⟩ rest ↔
      (∀ c ∈ gap, isBlank c = true) ∧ token.IsWord ∧
        EndsBefore token (spread words (tail ++ rest)) ∧ IsCanonicalBefore ⟨words, tail⟩ rest := by
  simp only [IsCanonicalBefore, IsBlank, AreLongest, List.forall_mem_cons]
  constructor
  · rintro ⟨⟨⟨hgap, hblank⟩, htail⟩, htoken, hends, hwords⟩
    exact ⟨hgap, htoken, hends, ⟨hblank, htail⟩, hwords⟩
  · rintro ⟨hgap, htoken, hends, ⟨hblank, htail⟩, hwords⟩
    exact ⟨⟨⟨hgap, hblank⟩, htail⟩, htoken, hends, hwords⟩

/-- What follows a layout follows its tail. -/
theorem text_append (l : Layout) (rest : List Char) :
    l.text ++ rest = spread l.words (l.tail ++ rest) := by
  rw [text, spread_eq_append, spread_eq_append l.words (l.tail ++ rest), List.append_assoc]

/-! ### There is a layout -/

/-- Every text is laid out up to a place where it is stuck. -/
theorem exists_isCanonicalBefore (cs : List Char) :
    ∃ (l : Layout) (rest : List Char),
      l.text ++ rest = cs ∧ l.IsCanonicalBefore rest ∧ IsStuck rest := by
  -- every token that is read leaves a shorter text
  induction hm : cs.length using Nat.strongRecOn generalizing cs with
  | ind m ih =>
    subst hm
    have hsplit : cs.takeWhile isBlank ++ cs.dropWhile isBlank = cs :=
      List.takeWhile_append_dropWhile
    have hgap : ∀ c ∈ cs.takeWhile isBlank, isBlank c = true :=
      List.all_eq_true.mp List.all_takeWhile
    have hhead : ∀ c ∈ (cs.dropWhile isBlank).head?, isBlank c = false :=
      fun _ hc ↦ Token.stop_of_mem_head?_dropWhile hc
    cases hread : Token.read? (cs.dropWhile isBlank) with
    | none =>
      refine ⟨⟨[], cs.takeWhile isBlank⟩, cs.dropWhile isBlank, hsplit, ⟨⟨?_, hgap⟩, trivial⟩,
        hhead, Token.read?_eq_none_iff.mp hread⟩
      exact List.forall_mem_nil _
    | some found =>
      obtain ⟨token, after⟩ := found
      have hshorter : after.length < cs.length :=
        Nat.lt_of_lt_of_le (Token.length_lt_of_read? hread)
          (List.dropWhile_suffix isBlank).length_le
      obtain ⟨l, rest, rfl, hl, hstuck⟩ := ih _ hshorter after rfl
      have hends := Token.endsBefore_of_read? hread
      rw [text_append] at hends
      refine ⟨⟨(cs.takeWhile isBlank, token) :: l.words, l.tail⟩, rest, ?_,
        isCanonicalBefore_cons.mpr ⟨hgap, Token.isWord_of_read? hread, hends, hl⟩, hstuck⟩
      rw [text_append, spread, ← text_append, ← Token.eq_spelling_append_of_read? hread, hsplit]

/-! ### There is only one -/

/-- Blank gaps before what is not blank are equal if the texts are. -/
theorem gap_append_inj {gap gap' cs cs' : List Char} (hg : ∀ c ∈ gap, isBlank c = true)
    (hg' : ∀ c ∈ gap', isBlank c = true) (hc : ∀ c ∈ cs.head?, isBlank c = false)
    (hc' : ∀ c ∈ cs'.head?, isBlank c = false) (h : gap ++ cs = gap' ++ cs') :
    gap = gap' ∧ cs = cs' := by
  obtain ⟨htake, hdrop⟩ := Token.takeWhile_dropWhile_of_stop hg hc
  obtain ⟨htake', hdrop'⟩ := Token.takeWhile_dropWhile_of_stop hg' hc'
  rw [h] at htake hdrop
  exact ⟨htake.symm.trans htake', hdrop.symm.trans hdrop'⟩

/-- The written form of a token does not begin with a blank. -/
theorem not_isBlank_head?_spelling {token : Token} (hw : token.IsWord) (after : List Char) :
    ∀ c ∈ (token.spelling.toList ++ after).head?, isBlank c = false := by
  obtain ⟨d, others, hcons, hd⟩ := Token.exists_spelling_eq_cons hw
  intro c hc
  rw [hcons] at hc
  obtain rfl : d = c := Option.some.inj hc
  exact hd

/-- Where a text is stuck after blanks, no word comes after blanks. -/
theorem IsStuck.append_ne_spread {rest tail gap : List Char} {token : Token} {cs : List Char}
    (hr : IsStuck rest) (ht : ∀ c ∈ tail, isBlank c = true) (hg : ∀ c ∈ gap, isBlank c = true)
    (hw : token.IsWord) : tail ++ rest ≠ gap ++ (token.spelling.toList ++ cs) := by
  intro h
  obtain ⟨-, rfl⟩ := gap_append_inj ht hg hr.not_blank (not_isBlank_head?_spelling hw cs) h
  exact hr.not_begins token hw (List.prefix_append _ _)

private theorem eq_of_spread_eq {words words' : List (List Char × Token)}
    {tail tail' rest rest' : List Char} (hl : IsCanonicalBefore ⟨words, tail⟩ rest)
    (hl' : IsCanonicalBefore ⟨words', tail'⟩ rest') (hr : IsStuck rest) (hr' : IsStuck rest')
    (h : spread words (tail ++ rest) = spread words' (tail' ++ rest')) :
    words = words' ∧ tail = tail' ∧ rest = rest' := by
  have ht : ∀ c ∈ tail, isBlank c = true := hl.1.2
  have ht' : ∀ c ∈ tail', isBlank c = true := hl'.1.2
  induction words generalizing words' with
  | nil =>
    cases words' with
    | nil =>
      obtain ⟨htail, hrest⟩ := gap_append_inj ht ht' hr.not_blank hr'.not_blank h
      exact ⟨rfl, htail, hrest⟩
    | cons word' words' =>
      obtain ⟨hg', hw', -, -⟩ := isCanonicalBefore_cons.mp hl'
      exact absurd h (hr.append_ne_spread ht hg' hw')
  | cons word words ih =>
    obtain ⟨hg, hw, hends, hwords⟩ := isCanonicalBefore_cons.mp hl
    cases words' with
    | nil => exact absurd h.symm (hr'.append_ne_spread ht' hg hw)
    | cons word' words' =>
      obtain ⟨hg', hw', hends', hwords'⟩ := isCanonicalBefore_cons.mp hl'
      obtain ⟨hgap, hspelled⟩ := gap_append_inj hg hg' (not_isBlank_head?_spelling hw _)
        (not_isBlank_head?_spelling hw' _) h
      obtain ⟨htoken, hafter⟩ := Token.spelling_append_inj hw hw' hends hends' hspelled
      obtain ⟨rfl, htail, hrest⟩ := ih hwords hwords' hafter
      exact ⟨by rw [Prod.ext hgap htoken], htail, hrest⟩

/-- Two layouts of a text up to places where it is stuck are the same. -/
theorem IsCanonicalBefore.eq {l l' : Layout} {rest rest' : List Char}
    (hl : l.IsCanonicalBefore rest) (hl' : l'.IsCanonicalBefore rest') (hr : IsStuck rest)
    (hr' : IsStuck rest') (h : l.text ++ rest = l'.text ++ rest') : l = l' ∧ rest = rest' := by
  rw [text_append, text_append] at h
  obtain ⟨words, tail⟩ := l
  obtain ⟨words', tail'⟩ := l'
  obtain ⟨rfl, rfl, rfl⟩ := eq_of_spread_eq hl hl' hr hr' h
  exact ⟨rfl, rfl⟩

/-- Two layouts of a text up to its end are the same. -/
theorem IsCanonical.eq {l l' : Layout} (hl : l.IsCanonical) (hl' : l'.IsCanonical)
    (h : l.text = l'.text) : l = l' := by
  rw [← isCanonicalBefore_nil] at hl hl'
  exact (hl.eq hl' isStuck_nil isStuck_nil (by rw [h])).1

/-! ### What stands where a text breaks off -/

/-- A text is laid out up to a place where it goes on with neither a blank nor a token. The error
has that place and what stands there up to the next blank. -/
structure BreaksOff (text : List Char) (l : Layout) (e : UnrecognisedText) (after : List Char) :
    Prop where
  text_eq : l.text ++ (e.text.toList ++ after) = text
  isCanonicalBefore : l.IsCanonicalBefore (e.text.toList ++ after)
  position_eq : e.position = utf8Length l.text
  not_begins : ∀ token : Token, token.IsWord →
    ¬token.spelling.toList <+: e.text.toList ++ after
  text_ne_nil : e.text.toList ≠ []
  not_blank : ∀ c ∈ e.text.toList, isBlank c = false
  blank_after : ∀ c ∈ after.head?, isBlank c = true

variable {text after : List Char} {l : Layout} {e : UnrecognisedText}

/-- Where a text breaks off it is stuck. -/
theorem BreaksOff.isStuck (h : BreaksOff text l e after) : IsStuck (e.text.toList ++ after) where
  not_blank := by
    obtain ⟨c, run, hrun⟩ := List.exists_cons_of_ne_nil h.text_ne_nil
    intro d hd
    rw [hrun] at hd
    obtain rfl : c = d := Option.some.inj hd
    exact h.not_blank c (hrun ▸ List.mem_cons_self)
  not_begins := h.not_begins

/-- Where a text breaks off it goes on. -/
theorem BreaksOff.ne_nil (h : BreaksOff text l e after) : e.text.toList ++ after ≠ [] :=
  List.append_ne_nil_of_left_ne_nil h.text_ne_nil after

/-- The error of a text that breaks off is what is not blank there. -/
theorem BreaksOff.error_eq (h : BreaksOff text l e after) :
    e = ⟨String.ofList ((e.text.toList ++ after).takeWhile (!isBlank ·)), utf8Length l.text⟩ := by
  have hrun : ∀ c ∈ e.text.toList, (!isBlank c) = true := fun c hc ↦ by rw [h.not_blank c hc]; rfl
  have hstop : ∀ c ∈ after.head?, (!isBlank c) = false := fun c hc ↦ by
    rw [h.blank_after c hc]
    rfl
  rw [(Token.takeWhile_dropWhile_of_stop hrun hstop).1, String.ofList_toList, ← h.position_eq]

/-- A text that is stuck before its end breaks off. -/
theorem exists_breaksOff {rest : List Char} (hl : l.IsCanonicalBefore rest) (hr : IsStuck rest)
    (hne : rest ≠ []) :
    ∃ after, BreaksOff (l.text ++ rest) l
      ⟨String.ofList (rest.takeWhile (!isBlank ·)), utf8Length l.text⟩ after := by
  have hsplit : (String.ofList (rest.takeWhile (!isBlank ·))).toList ++
      rest.dropWhile (!isBlank ·) = rest := by
    rw [String.toList_ofList, List.takeWhile_append_dropWhile]
  refine ⟨rest.dropWhile (!isBlank ·), by rw [hsplit], by rwa [hsplit], rfl, ?_, ?_, ?_, ?_⟩
  · rw [hsplit]
    exact hr.not_begins
  · obtain ⟨c, others, rfl⟩ := List.exists_cons_of_ne_nil hne
    rw [String.toList_ofList, List.takeWhile_cons, hr.not_blank c rfl]
    exact List.cons_ne_nil _ _
  · rw [String.toList_ofList]
    intro c hc
    have hall := List.all_eq_true.mp (List.all_takeWhile (p := (!isBlank ·)) (l := rest)) c hc
    rwa [Bool.not_eq_true'] at hall
  · intro c hc
    have hstop := Token.stop_of_mem_head?_dropWhile hc
    rwa [Bool.not_eq_false'] at hstop

end Layout

namespace Lexing

open Layout

variable {l : Layout} {rest : List Char}

/-- A layout is scanned as it is, and the scan goes on after it. -/
theorem scan_text_append (h : l.IsCanonicalBefore rest) (position : Nat) :
    scan position (l.text ++ rest) =
      (scan (position + utf8Length l.text) rest).map (prepend (lexemesFrom position l.words)) := by
  obtain ⟨⟨hblank, htail⟩, hlongest⟩ := h
  rw [text_append, scan_spread hblank hlongest, scan_gap_append htail, Layout.text,
    spread_eq_append l.words l.tail, utf8Length_append, Nat.add_assoc]

/-- A text that is laid out to its end is read as it is laid out. -/
theorem ofText_of_isCanonical {text : String} (hl : l.IsCanonical) (ht : l.text = text.toList) :
    ofText text = .ok l.lexing := by
  have hscan := scan_text_append (isCanonicalBefore_nil.mpr hl) 0
  rw [List.append_nil, scan_nil, ht, Nat.zero_add] at hscan
  rw [ofText, hscan, lexing, ht]
  change Except.ok (Lexing.mk (lexemesFrom 0 l.words ++ []) _) = _
  rw [List.append_nil]

/-- A text that is laid out up to a place where it is stuck is an error there. -/
theorem ofText_of_isStuck {text : String} (hl : l.IsCanonicalBefore rest) (hr : IsStuck rest)
    (hne : rest ≠ []) (ht : l.text ++ rest = text.toList) :
    ofText text =
      .error ⟨String.ofList (rest.takeWhile (!isBlank ·)), utf8Length l.text⟩ := by
  obtain ⟨c, others, rfl⟩ := List.exists_cons_of_ne_nil hne
  rw [ofText, ← ht, scan_text_append hl, Nat.zero_add,
    scan_of_not_read? (hr.not_blank c rfl) (Token.read?_eq_none_iff.mpr hr.not_begins)]
  rfl

/-- A text that breaks off is an error where it does. -/
theorem ofText_of_breaksOff {text : String} {e : UnrecognisedText} {after : List Char}
    (h : BreaksOff text.toList l e after) : ofText text = .error e := by
  rw [ofText_of_isStuck h.isCanonicalBefore h.isStuck h.ne_nil h.text_eq, ← h.error_eq]

/-- Every text is laid out to its end, or breaks off. -/
theorem exists_isCanonical_or_breaksOff (text : List Char) :
    (∃ l : Layout, l.IsCanonical ∧ l.text = text) ∨ ∃ l e after, BreaksOff text l e after := by
  obtain ⟨l, rest, rfl, hl, hr⟩ := exists_isCanonicalBefore text
  by_cases hne : rest = []
  · subst hne
    exact .inl ⟨l, isCanonicalBefore_nil.mp hl, (List.append_nil _).symm⟩
  · obtain ⟨after, h⟩ := exists_breaksOff hl hr hne
    exact .inr ⟨l, _, after, h⟩

/-- The texts that are read are those laid out to their ends, and they are read as they are laid
out. -/
theorem ofText_eq_ok_iff {text : String} {lexing : Lexing} :
    ofText text = .ok lexing ↔
      ∃ l : Layout, l.IsCanonical ∧ l.text = text.toList ∧ l.lexing = lexing := by
  constructor
  · intro h
    rcases exists_isCanonical_or_breaksOff text.toList with ⟨l, hl, ht⟩ | ⟨l, e, after, hb⟩
    · exact ⟨l, hl, ht, Except.ok.inj ((ofText_of_isCanonical hl ht).symm.trans h)⟩
    · rw [ofText_of_breaksOff hb] at h
      cases h
  · rintro ⟨l, hl, ht, rfl⟩
    exact ofText_of_isCanonical hl ht

/-- The texts that are not read are those that break off, and the error is the one there. -/
theorem ofText_eq_error_iff {text : String} {e : UnrecognisedText} :
    ofText text = .error e ↔ ∃ l after, BreaksOff text.toList l e after := by
  constructor
  · intro h
    rcases exists_isCanonical_or_breaksOff text.toList with ⟨l, hl, ht⟩ | ⟨l, e', after, hb⟩
    · rw [ofText_of_isCanonical hl ht] at h
      cases h
    · obtain rfl : e' = e := Except.error.inj ((ofText_of_breaksOff hb).symm.trans h)
      exact ⟨l, after, hb⟩
  · rintro ⟨l, after, hb⟩
    exact ofText_of_breaksOff hb

/-- Reading a text gives the tokens of its one layout up to its end, each with the bytes before it,
or the error at the place where the text breaks off; every text is of one of these two kinds. -/
theorem ofText_decides (text : String) :
    (∀ lexing, ofText text = .ok lexing ↔
      ∃ l : Layout, l.IsCanonical ∧ l.text = text.toList ∧ l.lexing = lexing ∧
        lexing.finish = text.utf8ByteSize ∧
        ∀ m : Layout, m.IsCanonical → m.text = text.toList → m = l) ∧
    (∀ e, ofText text = .error e ↔ ∃ l after, BreaksOff text.toList l e after) ∧
    ((∃ l : Layout, l.IsCanonical ∧ l.text = text.toList) ↔
      ¬∃ l e after, BreaksOff text.toList l e after) := by
  refine ⟨fun lexing ↦ ?_, fun e ↦ ofText_eq_error_iff, ?_, ?_⟩
  · rw [ofText_eq_ok_iff]
    constructor
    · rintro ⟨l, hl, ht, rfl⟩
      refine ⟨l, hl, ht, rfl, ?_, fun m hm hmt ↦ hm.eq hl (hmt.trans ht.symm)⟩
      rw [Layout.lexing, ht, utf8Length_toList]
    · rintro ⟨l, hl, ht, hlexing, -, -⟩
      exact ⟨l, hl, ht, hlexing⟩
  · rintro ⟨l, hl, ht⟩ ⟨l', e, after, hb⟩
    have h := ofText_of_isCanonical hl ht
    rw [ofText_of_breaksOff hb] at h
    cases h
  · exact (exists_isCanonical_or_breaksOff text.toList).resolve_right

end Lexing

end Sentential

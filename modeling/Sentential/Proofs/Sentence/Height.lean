import Sentential.Proofs.Sentence.RoundTrip
import Sentential.Sentence.Nesting

/-!
# The height of what is read

The limit on nesting counts the steps to negated sentences and right operands. The steps to left
operands are free, so no limit on the height of what is read follows from it, only one in terms
of how many left operands there are in a row. A lone connective is a row of one.
-/

namespace Sentential

namespace Sentence

mutual

/-- The deepest level on which a part stands. Left operands stand on the level of the whole, all
other parts one level deeper than what they are parts of. -/
def levelHeight : Sentence → Nat
  | atom _ => 0
  | negation target => target.levelHeight + 1
  | binary _ left right => max left.levelHeight (right.levelHeight + 1)
  | set members => memberLevelHeight members

/-- One more than the deepest level of a member, or zero without members. -/
def memberLevelHeight : List Sentence → Nat
  | [] => 0
  | s :: rest => max (s.levelHeight + 1) (memberLevelHeight rest)

end

/-- The number of left operands in a row: that of the sentence, that of its left operand and so on.
Any connective has at least one. -/
def leftChain : Sentence → Nat
  | binary _ left _ => left.leftChain + 1
  | atom _ | negation _ | set _ => 0

/-- Every sentence is a part of itself. -/
theorem mem_parts_self (s : Sentence) : s ∈ s.parts := by
  cases s <;> exact List.mem_cons_self

/-- The parts of the members are parts of each in turn. -/
theorem memberParts_eq_flatMap (members : List Sentence) :
    memberParts members = members.flatMap parts := by
  induction members with
  | nil => rfl
  | cons s rest ih => rw [memberParts, ih, List.flatMap_cons]

/-- A set is higher than its members, and has no other height. -/
theorem memberHeight_le_iff {members : List Sentence} {bound : Nat} :
    memberHeight members ≤ bound ↔ ∀ s ∈ members, s.height + 1 ≤ bound := by
  induction members with
  | nil => simp [memberHeight]
  | cons s rest ih => rw [memberHeight, Nat.max_le, ih, List.forall_mem_cons]

/-- Members stand one level deeper than their set. -/
theorem levelHeight_lt_memberLevelHeight {members : List Sentence} {s : Sentence}
    (h : s ∈ members) : s.levelHeight < memberLevelHeight members := by
  induction members with
  | nil => cases h
  | cons t rest ih =>
    rw [memberLevelHeight]
    rcases List.mem_cons.mp h with rfl | h
    · omega
    · have := ih h
      omega

/-- A sentence is at most as high as its levels, where each level and the outermost one may have a
row of left operands. -/
theorem height_le_of_leftChain_le {s : Sentence} {longest : Nat}
    (h : ∀ part ∈ s.parts, part.leftChain ≤ longest) :
    s.height ≤ s.levelHeight * (longest + 1) + s.leftChain := by
  -- a step that begins a level is paid with the row that it leaves behind
  have deeper {t : Sentence} {levels : Nat} (hchain : t.leftChain ≤ longest)
      (ht : t.height ≤ t.levelHeight * (longest + 1) + t.leftChain)
      (hlevels : t.levelHeight + 1 ≤ levels) : t.height + 1 ≤ levels * (longest + 1) := by
    have hmul := Nat.mul_le_mul_right (longest + 1) hlevels
    rw [Nat.succ_mul] at hmul
    omega
  induction s with
  | atom v => exact Nat.zero_le _
  | negation target ih =>
    rw [parts, List.forall_mem_cons] at h
    rw [height, levelHeight, leftChain]
    exact deeper (h.2 _ target.mem_parts_self) (ih h.2) (Nat.le_refl _)
  | binary c left right ihl ihr =>
    rw [parts, List.forall_mem_cons, List.forall_mem_append] at h
    obtain ⟨-, hl, hr⟩ := h
    rw [height, levelHeight, leftChain]
    have hleft := Nat.mul_le_mul_right (longest + 1)
      (Nat.le_max_left left.levelHeight (right.levelHeight + 1))
    have hright := deeper (hr _ right.mem_parts_self) (ihr hr)
      (Nat.le_max_right left.levelHeight (right.levelHeight + 1))
    have := ihl hl
    omega
  | set members ih =>
    rw [parts, List.forall_mem_cons, memberParts_eq_flatMap] at h
    rw [height, levelHeight, memberHeight_le_iff]
    intro s hs
    have hparts : ∀ part ∈ s.parts, part.leftChain ≤ longest :=
      fun part hp ↦ h.2 part (List.mem_flatMap.mpr ⟨s, hs, hp⟩)
    have hone := deeper (hparts _ s.mem_parts_self) (ih s hs hparts)
      (levelHeight_lt_memberLevelHeight hs)
    omega

end Sentence

/-- Parentheses only add to the nesting of a tree. -/
theorem Grammar.Tree.levelHeight_sentence_le (t : Grammar.Tree) :
    t.sentence.levelHeight ≤ t.nesting := by
  induction t with
  | label v => exact Nat.zero_le _
  | grouped inner ih =>
    rw [sentence, nesting]
    omega
  | negated target ih =>
    rw [sentence, nesting, Sentence.levelHeight]
    omega
  | joined c left right ihl ihr =>
    rw [sentence, nesting, Sentence.levelHeight]
    omega

namespace Sentence

open Grammar

/-- Every part of a sentence that was read stands on the outermost level or on one of the 256 below.
The height has a bound in terms of how many left operands there are in a row at most, which is zero
only where there is no connective. -/
theorem height_le_of_parse {text : String} {s : Sentence} (h : parse text = .ok s) :
    s.levelHeight ≤ 256 ∧
    ∀ longest, (∀ part ∈ s.parts, part.leftChain ≤ longest) →
      s.height ≤ 256 * (longest + 1) + longest := by
  obtain ⟨lexing, -, hs⟩ := parse_eq_ok_iff.mp h
  obtain ⟨t, -, -, rfl, hn⟩ := Parser.exists_tree_of_sentence hs
  have hlevels : t.sentence.levelHeight ≤ 256 := Nat.le_trans t.levelHeight_sentence_le hn
  refine ⟨hlevels, fun longest hchain ↦ ?_⟩
  have hheight := height_le_of_leftChain_le hchain
  have hmul := Nat.mul_le_mul_right (longest + 1) hlevels
  have := hchain _ t.sentence.mem_parts_self
  omega

/-- A variable below so many negations. -/
def negated (v : Variable) : Nat → Sentence
  | 0 => atom v
  | n + 1 => negation (negated v n)

/-- Negations need no parentheses, have no left operands, and are as high as they nest. -/
theorem negated_measures (v : Variable) (n : Nat) :
    (negated v n).isSetFree = true ∧ (negated v n).textNesting = n ∧
    (negated v n).hasMultiple = false ∧ (∀ part ∈ (negated v n).parts, part.leftChain = 0) ∧
    (negated v n).height = n := by
  induction n with
  | zero => simp [negated, isSetFree, textNesting, hasMultiple, children, parts, leftChain, height]
  | succ n ih =>
    obtain ⟨hfree, htext, hmultiple, hchain, hheight⟩ := ih
    have hone : (negation (negated v n)).hasMultiple = false := rfl
    simp only [negated, isSetFree, hfree, textNesting, operandLevels, htext, hmultiple, hone, parts,
      List.forall_mem_cons, leftChain, height, hheight, true_and]
    exact ⟨by simp [Nat.add_comm], hchain, trivial⟩

/-- The same to the left of a connective, whose text is read without a further level. -/
def negatedLeft (v : Variable) (n : Nat) : Sentence := conjunction (negated v n) (atom v)

/-- It has a left operand, and is higher by one. -/
theorem negatedLeft_measures (v : Variable) (n : Nat) :
    (negatedLeft v n).isSetFree = true ∧ (negatedLeft v n).textNesting = max n 1 ∧
    (∀ part ∈ (negatedLeft v n).parts, part.leftChain ≤ 1) ∧
    (negatedLeft v n).height = n + 1 := by
  obtain ⟨hfree, htext, hmultiple, hchain, hheight⟩ := negated_measures v n
  have hlabel : (atom v).hasMultiple = false := rfl
  refine ⟨?_, ?_, ?_, ?_⟩
  · rw [negatedLeft, isSetFree, hfree]
    rfl
  · simp [negatedLeft, textNesting, operandLevels, htext, hmultiple, hlabel]
  · rw [negatedLeft, parts, parts, List.forall_mem_cons, List.forall_mem_append,
      List.forall_mem_singleton, leftChain, hchain _ (mem_parts_self _)]
    exact ⟨Nat.le_refl _, fun part hp ↦ hchain part hp ▸ Nat.zero_le _, Nat.zero_le _⟩
  · rw [negatedLeft, height, hheight, height, Nat.max_zero]

/-- 256 negations are read, and are as high as anything read without connectives. With a connective
after them they are read too, on no more levels, but what is read is higher by one. -/
theorem height_le_of_parse_negated :
    (parse (negated ⟨"a", by decide⟩ 256).text = .ok (negated ⟨"a", by decide⟩ 256) ∧
      (∀ part ∈ (negated ⟨"a", by decide⟩ 256).parts, part.leftChain ≤ 0) ∧
      (negated ⟨"a", by decide⟩ 256).levelHeight ≤ 256 ∧
      (negated ⟨"a", by decide⟩ 256).height ≤ 256 * (0 + 1) + 0 ∧
      (negated ⟨"a", by decide⟩ 256).height = 256) ∧
    parse (negatedLeft ⟨"a", by decide⟩ 256).text = .ok (negatedLeft ⟨"a", by decide⟩ 256) ∧
    (∀ part ∈ (negatedLeft ⟨"a", by decide⟩ 256).parts, part.leftChain ≤ 1) ∧
    (negatedLeft ⟨"a", by decide⟩ 256).levelHeight ≤ 256 ∧
    (negatedLeft ⟨"a", by decide⟩ 256).height ≤ 256 * (1 + 1) + 1 ∧
    (negatedLeft ⟨"a", by decide⟩ 256).height = 257 := by
  obtain ⟨hfree, htext, -, hchain, hheight⟩ := negated_measures ⟨"a", by decide⟩ 256
  have hparse := (parse_text_of_isSetFree hfree).1 (Nat.le_of_eq htext)
  have hnone : ∀ part ∈ (negated ⟨"a", by decide⟩ 256).parts, part.leftChain ≤ 0 :=
    fun part hp ↦ Nat.le_of_eq (hchain part hp)
  obtain ⟨hlevels, hbound⟩ := height_le_of_parse hparse
  obtain ⟨hfree', htext', hone, hheight'⟩ := negatedLeft_measures ⟨"a", by decide⟩ 256
  have hparse' := (parse_text_of_isSetFree hfree').1 (Nat.le_of_eq htext')
  obtain ⟨hlevels', hbound'⟩ := height_le_of_parse hparse'
  exact ⟨⟨hparse, hnone, hlevels, hbound 0 hnone, hheight⟩, hparse', hone, hlevels',
    hbound' 1 hone, hheight'⟩

/-- The sentence of a chain is as high as the chain is long. -/
theorem height_sentence_chain (c : Connective) (v : Variable) (n : Nat) :
    (Tree.chain c v n).sentence.height = n := by
  induction n with
  | zero => rfl
  | succ n ih =>
    rw [Tree.chain, Tree.sentence, height, ih]
    exact congrArg Nat.succ (Nat.max_eq_left (Nat.zero_le n))

/-- There is no bound for the height of everything that is read. -/
theorem not_exists_height_bound : ¬∃ bound, ∀ text s, parse text = .ok s → s.height ≤ bound := by
  rintro ⟨bound, h⟩
  let v : Variable := ⟨"a", by decide⟩
  have hheight := h _ _ (parse_text_chain .conjunction v (bound + 1))
  rw [height_sentence_chain] at hheight
  omega

end Sentence

end Sentential

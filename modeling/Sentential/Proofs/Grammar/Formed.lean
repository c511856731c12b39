import Sentential.Grammar

/-!
# Phrases by binding power

A reader of sentences knows no phrases, only binding powers. A tree is formed when each of its
operands binds as tightly as its place asks for. The expressions of the grammar are exactly the
formed trees, and the tighter phrases are those whose outermost connective binds tighter.
-/

namespace Sentential

namespace Connective

/-- Every connective binds. -/
theorem bindingPower_pos (c : Connective) : 0 < c.bindingPower := by
  cases c <;> decide

/-- No connective binds tighter than a conjunction. -/
theorem bindingPower_le (c : Connective) : c.bindingPower ≤ conjunction.bindingPower := by
  cases c <;> decide

/-- No connective binds as tightly as a negation. -/
theorem bindingPower_lt_negation (c : Connective) :
    c.bindingPower < Token.negation.bindingPower :=
  Nat.lt_of_le_of_lt c.bindingPower_le (by decide)

end Connective

namespace Grammar

/-- The power that the outermost connective of a phrase has to exceed. -/
def Phrase.power : Phrase → Nat
  | expression => 0
  | disjunction => Connective.implication.bindingPower
  | conjunction => Connective.disjunction.bindingPower
  | negation | primary => Connective.conjunction.bindingPower

namespace Tree

/-- The outermost connective binds tighter than a power, unless negations or parentheses are
around all connectives. -/
def Exceeds (power : Nat) : Tree → Prop
  | joined connective _ _ => power < connective.bindingPower
  | _ => True

/-- An operator of the given power that comes next takes the whole tree as its left operand, not
only the last part of it. -/
def EndsBefore (power : Nat) : Tree → Prop
  | joined connective _ _ => power ≤ connective.bindingPower
  | negated _ => power ≤ Token.negation.bindingPower
  | _ => True

/-- Every operand binds as tightly as its place asks for. -/
def IsFormed : Tree → Prop
  | label _ => True
  | grouped inner => inner.IsFormed
  | negated target => target.IsFormed ∧ target.Exceeds Token.negation.bindingPower
  | joined connective left right =>
    (left.IsFormed ∧ left.EndsBefore connective.bindingPower) ∧
      right.IsFormed ∧ right.Exceeds connective.bindingPower

/-- Labels exceed every power. -/
@[simp] theorem exceeds_label (power : Nat) (v : Variable) : (label v).Exceeds power := trivial

/-- Parentheses exceed every power. -/
@[simp] theorem exceeds_grouped (power : Nat) (inner : Tree) : (grouped inner).Exceeds power :=
  trivial

/-- Negations exceed every power of a connective. -/
@[simp] theorem exceeds_negated (power : Nat) (target : Tree) : (negated target).Exceeds power :=
  trivial

/-- Joined trees exceed what their connective exceeds. -/
@[simp] theorem exceeds_joined {power : Nat} {c : Connective} {left right : Tree} :
    (joined c left right).Exceeds power ↔ power < c.bindingPower := Iff.rfl

/-- A joined tree ends before operators that do not bind tighter than its connective. -/
@[simp] theorem endsBefore_joined {power : Nat} {c : Connective} {left right : Tree} :
    (joined c left right).EndsBefore power ↔ power ≤ c.bindingPower := Iff.rfl

/-- What exceeds a power exceeds every lower one. -/
theorem Exceeds.mono {t : Tree} {power lower : Nat} (h : t.Exceeds power) (hl : lower ≤ power) :
    t.Exceeds lower := by
  cases t with
  | joined c left right =>
    rw [exceeds_joined] at h ⊢
    omega
  | label v => exact exceeds_label lower v
  | grouped inner => exact exceeds_grouped lower inner
  | negated target => exact exceeds_negated lower target

/-- Every connective binds, so nothing is below the power zero. -/
theorem exceeds_zero (t : Tree) : t.Exceeds 0 := by
  cases t with
  | joined c left right => exact exceeds_joined.mpr c.bindingPower_pos
  | label v => exact exceeds_label 0 v
  | grouped inner => exact exceeds_grouped 0 inner
  | negated target => exact exceeds_negated 0 target

/-- What exceeds a conjunction has no connective outside, so it exceeds a negation too. -/
theorem Exceeds.negation {t : Tree} (h : t.Exceeds Connective.conjunction.bindingPower) :
    t.Exceeds Token.negation.bindingPower := by
  cases t with
  | joined c left right =>
    have hc := c.bindingPower_le
    rw [exceeds_joined] at h
    omega
  | label v => exact exceeds_label _ v
  | grouped inner => exact exceeds_grouped _ inner
  | negated target => exact exceeds_negated _ target

/-- A tree ends before a connective when no connective between it and the exceeded power is
looser. -/
theorem Exceeds.endsBefore {t : Tree} {c : Connective} {power : Nat} (h : t.Exceeds power)
    (hc : ∀ d : Connective, power < d.bindingPower → c.bindingPower ≤ d.bindingPower) :
    t.EndsBefore c.bindingPower := by
  cases t with
  | joined d left right => exact hc d h
  | negated target => exact Nat.le_of_lt c.bindingPower_lt_negation
  | label v => trivial
  | grouped inner => trivial

/-- A tree that exceeds a power ends before operators that bind no tighter, unless they bind
tighter than a negation. -/
theorem Exceeds.endsBefore_of_le {t : Tree} {power lower : Nat} (h : t.Exceeds power)
    (hl : lower ≤ power) (hn : lower ≤ Token.negation.bindingPower) : t.EndsBefore lower := by
  cases t with
  | joined c left right =>
    rw [exceeds_joined] at h
    rw [endsBefore_joined]
    omega
  | negated target => exact hn
  | label v => trivial
  | grouped inner => trivial

/-- Every tree ends before what does not bind. -/
theorem endsBefore_zero (t : Tree) : t.EndsBefore 0 :=
  t.exceeds_zero.endsBefore_of_le (Nat.le_refl 0) (Nat.zero_le _)

/-- A tree that ends before a connective exceeds every power below that of the connective. -/
theorem EndsBefore.exceeds {t : Tree} {c : Connective} {power : Nat}
    (h : t.EndsBefore c.bindingPower) (hc : power < c.bindingPower) : t.Exceeds power := by
  cases t with
  | joined d left right =>
    rw [endsBefore_joined] at h
    rw [exceeds_joined]
    omega
  | label v => exact exceeds_label power v
  | grouped inner => exact exceeds_grouped power inner
  | negated target => exact exceeds_negated power target

/-- A phrase of the grammar is formed, and its outermost connective is one of the phrase. -/
theorem IsA.isFormed {phrase : Phrase} {t : Tree} (h : t.IsA phrase) :
    t.IsFormed ∧ t.Exceeds phrase.power := by
  induction h with
  | label v => exact ⟨trivial, exceeds_label _ v⟩
  | grouped _ ih => exact ⟨ih.1, exceeds_grouped _ _⟩
  | ofPrimary _ ih => exact ih
  | negated _ ih => exact ⟨⟨ih.1, ih.2.negation⟩, exceeds_negated _ _⟩
  | ofNegation _ ih => exact ⟨ih.1, ih.2.mono (by decide)⟩
  | conjoined _ _ ihl ihr =>
    refine ⟨⟨⟨ihl.1, ?_⟩, ihr.1, ihr.2⟩, exceeds_joined.mpr (by decide)⟩
    exact ihl.2.endsBefore fun d hd ↦ by cases d <;> revert hd <;> decide
  | ofConjunction _ ih => exact ⟨ih.1, ih.2.mono (by decide)⟩
  | disjoined _ _ ihl ihr =>
    refine ⟨⟨⟨ihl.1, ?_⟩, ihr.1, ihr.2⟩, exceeds_joined.mpr (by decide)⟩
    exact ihl.2.endsBefore fun d hd ↦ by cases d <;> revert hd <;> decide
  | ofDisjunction _ ih => exact ⟨ih.1, ih.2.mono (by decide)⟩
  | @arrow c left right hc _ _ ihl ihr =>
    have hp : c.bindingPower = Connective.implication.bindingPower := by
      cases c <;> first | rfl | simp at hc
    have hl : left.EndsBefore c.bindingPower :=
      ihl.2.endsBefore fun d _ ↦ by rw [hp]; cases d <;> decide
    have hr : right.Exceeds c.bindingPower := by
      rw [hp]
      exact ihr.2
    exact ⟨⟨⟨ihl.1, hl⟩, ihr.1, hr⟩, exceeds_zero _⟩

/-- A negation is a phrase of every looser kind. -/
theorem IsA.ofTighter {phrase : Phrase} {t : Tree} (h : t.IsA .negation)
    (hp : phrase ≠ .primary) : t.IsA phrase := by
  cases phrase with
  | primary => exact absurd rfl hp
  | negation => exact h
  | conjunction => exact .ofNegation h
  | disjunction => exact .ofConjunction (.ofNegation h)
  | expression => exact .ofDisjunction (.ofConjunction (.ofNegation h))

/-- A formed tree is every phrase that its outermost connective allows. -/
theorem IsFormed.isA {phrase : Phrase} {t : Tree} (h : t.IsFormed) (hp : phrase ≠ .primary)
    (he : t.Exceeds phrase.power) : t.IsA phrase := by
  induction t generalizing phrase with
  | label v => exact IsA.ofTighter (.ofPrimary (.label v)) hp
  | grouped inner ih =>
    have hi : inner.IsA .expression := ih h (by decide) inner.exceeds_zero
    exact IsA.ofTighter (.ofPrimary (.grouped hi)) hp
  | negated target ih =>
    have ht : target.IsA .negation := ih h.1 (by decide) (h.2.mono (by decide))
    exact IsA.ofTighter (.negated ht) hp
  | joined c left right ihl ihr =>
    obtain ⟨⟨hl, hle⟩, hr, hre⟩ := h
    rw [exceeds_joined] at he
    cases c with
    | conjunction =>
      have ht : (joined .conjunction left right).IsA .conjunction :=
        .conjoined (ihl hl (by decide) (hle.exceeds (by decide))) (ihr hr (by decide) hre)
      cases phrase with
      | primary => exact absurd rfl hp
      | negation => exact absurd he (by decide)
      | conjunction => exact ht
      | disjunction => exact .ofConjunction ht
      | expression => exact .ofDisjunction (.ofConjunction ht)
    | disjunction =>
      have ht : (joined .disjunction left right).IsA .disjunction :=
        .disjoined (ihl hl (by decide) (hle.exceeds (by decide))) (ihr hr (by decide) hre)
      cases phrase with
      | primary => exact absurd rfl hp
      | negation | conjunction => exact absurd he (by decide)
      | disjunction => exact ht
      | expression => exact .ofDisjunction ht
    | implication | reduction | equivalence =>
      cases phrase with
      | primary => exact absurd rfl hp
      | negation | conjunction | disjunction => exact absurd he (by decide)
      | expression =>
        exact .arrow (by decide) (ihl hl (by decide) left.exceeds_zero) (ihr hr (by decide) hre)

/-- The expressions of the grammar are the formed trees. -/
theorem isA_expression_iff {t : Tree} : t.IsA .expression ↔ t.IsFormed :=
  ⟨fun h ↦ h.isFormed.1, fun h ↦ h.isA (by decide) t.exceeds_zero⟩

end Tree

end Grammar

end Sentential

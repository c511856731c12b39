import Sentential.Proofs.Grammar.Formed

/-!
# Trees from their tokens

The tokens of a formed tree are scanned from left to right, keeping the operators and
parentheses whose operand is still open. What is open is closed as soon as a looser operator
follows. In the end the tree is there again, so the grammar is unambiguous.
-/

namespace Sentential

namespace Grammar

/-- An operator or a parenthesis whose operand is still open. -/
inductive Frame where
  | negated
  | joined (connective : Connective) (left : Tree)
  | grouped
  deriving DecidableEq

/-- The power that the operators of the open operand have to exceed. -/
def Frame.power : Frame → Nat
  | negated => Token.negation.bindingPower
  | joined connective _ => connective.bindingPower
  | grouped => 0

/-- A tree of which only the first tokens are known, with the innermost open frame first. -/
inductive Partial where
  /-- An operand comes next. -/
  | before (frames : List Frame)
  /-- An operand ends here. -/
  | after (operand : Tree) (frames : List Frame)
  deriving DecidableEq

namespace Partial

/-- Close the frames whose operand an operator of the given power does not continue. -/
def close (power : Nat) (operand : Tree) : List Frame → Tree × List Frame
  | .negated :: frames => close power (.negated operand) frames
  | .joined connective left :: frames =>
    if power ≤ connective.bindingPower then
      close power (.joined connective left operand) frames
    else (operand, .joined connective left :: frames)
  | frames => (operand, frames)

/-- The partial tree with one more token, if the token may stand there. -/
def step? : Partial → Token → Option Partial
  | before frames, .label text =>
    (Variable.ofLabel text).toOption.map fun v ↦ after (.label v) frames
  | before frames, .negation => some (before (.negated :: frames))
  | before frames, .leftParenthesis => some (before (.grouped :: frames))
  | after operand frames, .connective c =>
    let (left, others) := close c.bindingPower operand frames
    some (before (.joined c left :: others))
  | after operand frames, .rightParenthesis =>
    match close 0 operand frames with
    | (inner, .grouped :: others) => some (after (.grouped inner) others)
    | _ => none
  | _, _ => none

/-- The partial tree with some more tokens. -/
def run? (start : Partial) (tokens : List Token) : Option Partial := tokens.foldlM step? start

/-- The whole tree, if no parenthesis is open. -/
def whole? : Partial → Option Tree
  | after operand frames =>
    match close 0 operand frames with
    | (tree, []) => some tree
    | _ => none
  | before _ => none

/-- Tokens in two parts are scanned one part after the other. -/
theorem run?_append (start : Partial) (first second : List Token) :
    start.run? (first ++ second) = (start.run? first).bind fun p ↦ p.run? second := by
  rw [run?, List.foldlM_append]
  rfl

/-- The first token is scanned before the others. -/
theorem run?_cons (start : Partial) (token : Token) (rest : List Token) :
    start.run? (token :: rest) = (start.step? token).bind fun p ↦ p.run? rest := by
  rw [run?, List.foldlM_cons]
  rfl

/-- Nothing is closed where the innermost open frame is a parenthesis. -/
@[simp] theorem close_grouped (power : Nat) (t : Tree) (frames : List Frame) :
    close power t (.grouped :: frames) = (t, .grouped :: frames) := by
  rw [close]
  · simp
  · simp

/-- Nothing is closed where nothing is open. -/
@[simp] theorem close_nil (power : Nat) (t : Tree) : close power t [] = (t, []) := by
  rw [close]
  · simp
  · simp

/-- An operator that binds tighter than the innermost frame closes nothing. -/
theorem close_of_exceeds {c : Connective} {left right : Tree} {frames : List Frame}
    (h : ∀ frame ∈ frames.head?, (Tree.joined c left right).Exceeds frame.power) (t : Tree) :
    close c.bindingPower t frames = (t, frames) := by
  cases frames with
  | nil => exact close_nil _ t
  | cons frame frames =>
    have hf : frame.power < c.bindingPower := h frame rfl
    cases frame with
    | negated => exact absurd hf (Nat.lt_asymm c.bindingPower_lt_negation)
    | joined d left' =>
      have hd : ¬c.bindingPower ≤ d.bindingPower := Nat.not_le.mpr hf
      rw [close, if_neg hd]
    | grouped => exact close_grouped _ t frames

end Partial

namespace Tree

/-- Scanning the tokens of a formed tree leaves the tree behind, up to frames that the next
operator closes anyway. -/
theorem IsFormed.run?_yield {t : Tree} (ht : t.IsFormed) (frames : List Frame)
    (hf : ∀ frame ∈ frames.head?, t.Exceeds frame.power) :
    ∃ operand others, Partial.run? (.before frames) t.yield = some (.after operand others) ∧
      ∀ power, t.EndsBefore power →
        Partial.close power operand others = Partial.close power t frames := by
  induction t generalizing frames with
  | label v =>
    refine ⟨.label v, frames, ?_, fun power _ ↦ rfl⟩
    have hv : Variable.ofLabel v.label = .ok v := Variable.ofLabel_eq_ok_iff.mpr rfl
    rw [yield, Partial.run?_cons, Partial.step?, hv]
    rfl
  | grouped inner ih =>
    obtain ⟨operand, others, hr, hc⟩ := ih ht (.grouped :: frames)
      fun frame hm ↦ by
        obtain rfl : .grouped = frame := by simpa using hm
        exact inner.exceeds_zero
    have hc0 : Partial.close 0 operand others = (inner, .grouped :: frames) := by
      rw [hc 0 inner.endsBefore_zero,
        Partial.close_grouped]
    refine ⟨.grouped inner, frames, ?_, fun power _ ↦ rfl⟩
    rw [yield, List.cons_append, Partial.run?_cons, Partial.step?, Option.bind_some,
      Partial.run?_append, hr, Option.bind_some, Partial.run?_cons, Partial.step?, hc0]
    rfl
  | negated target ih =>
    obtain ⟨operand, others, hr, hc⟩ := ih ht.1 (.negated :: frames)
      fun frame hm ↦ by
        obtain rfl : .negated = frame := by simpa using hm
        exact ht.2
    refine ⟨operand, others, ?_, fun power hp ↦ ?_⟩
    · rw [yield, Partial.run?_cons, Partial.step?, Option.bind_some, hr]
    · rw [hc power (ht.2.endsBefore_of_le hp hp), Partial.close]
  | joined c left right ihl ihr =>
    obtain ⟨⟨hl, hle⟩, hr, hre⟩ := ht
    obtain ⟨operand, others, hrl, hcl⟩ := ihl hl frames
      fun frame hm ↦ hle.exceeds (hf frame hm)
    obtain ⟨operand', others', hrr, hcr⟩ := ihr hr (.joined c left :: frames)
      fun frame hm ↦ by
        obtain rfl : .joined c left = frame := by simpa using hm
        exact hre
    have hclose : Partial.close c.bindingPower operand others = (left, frames) := by
      rw [hcl c.bindingPower hle, Partial.close_of_exceeds hf]
    refine ⟨operand', others', ?_, fun power hp ↦ ?_⟩
    · rw [yield, Partial.run?_append, hrl, Option.bind_some, Partial.run?_cons, Partial.step?,
        hclose]
      exact hrr
    · have hpc : power ≤ c.bindingPower := endsBefore_joined.mp hp
      have hpn : power ≤ Token.negation.bindingPower :=
        Nat.le_trans hpc (Nat.le_of_lt c.bindingPower_lt_negation)
      rw [hcr power (hre.endsBefore_of_le hpc hpn), Partial.close, if_pos hpc]

/-- The tokens of a formed tree give the tree back. -/
theorem IsFormed.whole?_yield {t : Tree} (ht : t.IsFormed) :
    (Partial.run? (.before []) t.yield).bind Partial.whole? = some t := by
  obtain ⟨operand, others, hr, hc⟩ := ht.run?_yield [] (by simp)
  have hc0 : Partial.close 0 operand others = (t, []) := by
    rw [hc 0 t.endsBefore_zero, Partial.close_nil]
  rw [hr, Option.bind_some, Partial.whole?, hc0]

/-- Formed trees with the same tokens are equal. -/
theorem IsFormed.eq_of_yield_eq {t u : Tree} (ht : t.IsFormed) (hu : u.IsFormed)
    (h : t.yield = u.yield) : t = u := by
  have hw := ht.whole?_yield
  rw [h, hu.whole?_yield] at hw
  exact (Option.some.inj hw).symm

end Tree

end Grammar

end Sentential

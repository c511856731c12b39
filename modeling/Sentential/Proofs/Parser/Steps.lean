import Sentential.Sentence.Parser

/-!
# The steps of reading

One equation for each thing that can come next where an operand or an operator is read. Later
proofs go by these equations only.
-/

namespace Sentential

namespace Parser

/-- What was read is known by the sentence and the lexemes left. -/
theorem Parsed.ext {lexemes : List Lexeme} {p q : Parsed lexemes} (hs : p.sentence = q.sentence)
    (hr : p.rest = q.rest) : p = q := by
  cases p
  cases q
  cases hs
  cases hr
  rfl

/-- What was read, a connective, and what was read after it. -/
def Parsed.join {lexemes rest : List Lexeme} {c : Connective} {start : Nat}
    (left : Parsed lexemes) (h : left.rest = ⟨.connective c, start⟩ :: rest)
    (right : Parsed rest) : Parsed lexemes :=
  ⟨.binary c left.sentence right.sentence, right.rest, by
    have hl := left.rest_lt
    have hr := right.rest_lt
    rw [h, List.length_cons] at hl
    omega⟩

/-- Every right operand leaves fewer lexemes. -/
theorem Parsed.join_rest_lt {lexemes rest : List Lexeme} {c : Connective} {start : Nat}
    (left : Parsed lexemes) (h : left.rest = ⟨.connective c, start⟩ :: rest)
    (right : Parsed rest) : (left.join h right).rest.length < left.rest.length := by
  rw [h, List.length_cons]
  exact Nat.lt_succ_of_lt right.rest_lt

/-- A token comes next where the lexemes begin with it. -/
theorem next_eq_some_iff {lexemes : List Lexeme} {token : Token} :
    next lexemes = some token ↔ ∃ start rest, lexemes = ⟨token, start⟩ :: rest := by
  cases lexemes with
  | nil => simp [next]
  | cons lexeme rest =>
    obtain ⟨first, start⟩ := lexeme
    simp [next]

/-- Nothing comes next where there are no lexemes. -/
theorem next_eq_none_iff {lexemes : List Lexeme} : next lexemes = none ↔ lexemes = [] := by
  rw [next, Option.map_eq_none_iff, List.head?_eq_none_iff]

variable {inner : ExpressionReader} {finish : Nat}

/-- A label is an operand by itself. -/
theorem operand_label (v : Variable) (start : Nat) (rest : List Lexeme) :
    operand inner finish (⟨.label v.label, start⟩ :: rest) =
      .ok ⟨.atom v, rest, Nat.lt_succ_self _⟩ := by
  have hv : Variable.ofLabel v.label = .ok v := Variable.ofLabel_eq_ok_iff.mpr rfl
  rw [operand]
  split
  · next w hw =>
    obtain rfl : v = w := Except.ok.inj (hv.symm.trans hw)
    rfl
  · next e he => exact absurd (hv.symm.trans he) (by simp)

/-- After a negation sign its target is read. -/
theorem operand_negation (inner : ExpressionReader) (finish start : Nat) (rest : List Lexeme) :
    operand inner finish (⟨.negation, start⟩ :: rest) =
      (inner Token.negation.bindingPower rest).map fun target ↦
        ⟨.negation target.sentence, target.rest, Nat.lt_succ_of_lt target.rest_lt⟩ := by
  rw [operand]
  cases inner Token.negation.bindingPower rest <;> rfl

/-- An error after an opening parenthesis is that of the operand. -/
theorem operand_group_of_error {start : Nat} {rest : List Lexeme} {e : ParseError}
    (h : inner 0 rest = .error e) :
    operand inner finish (⟨.leftParenthesis, start⟩ :: rest) = .error e := by
  rw [operand, h]
  rfl

/-- An expression after an opening parenthesis is an operand if the closing one follows. -/
theorem operand_group_cases (start : Nat) {rest : List Lexeme} {content : Parsed rest}
    (h : inner 0 rest = .ok content) :
    (∃ stop, ∃ p, operand inner finish (⟨.leftParenthesis, start⟩ :: rest) = .ok p ∧
      p.sentence = content.sentence ∧ content.rest = ⟨.rightParenthesis, stop⟩ :: p.rest) ∨
    ((∀ stop after, content.rest ≠ ⟨.rightParenthesis, stop⟩ :: after) ∧
      operand inner finish (⟨.leftParenthesis, start⟩ :: rest) =
        .error (unexpected .closing finish content.rest)) := by
  rw [operand, h]
  simp only [bind, Except.bind]
  split
  · next stop after hr => exact .inl ⟨stop, _, rfl, rfl, hr⟩
  · next hne => exact .inr ⟨hne, rfl⟩

/-- An expression in parentheses is an operand. -/
theorem operand_group_of_closed {start stop : Nat} {rest after : List Lexeme}
    {content : Parsed rest} (h : inner 0 rest = .ok content)
    (hr : content.rest = ⟨.rightParenthesis, stop⟩ :: after) :
    ∃ p, operand inner finish (⟨.leftParenthesis, start⟩ :: rest) = .ok p ∧
      p.sentence = content.sentence ∧ p.rest = after := by
  rcases operand_group_cases start h with ⟨stop', p, hp, hs, hr'⟩ | ⟨hne, -⟩
  · rw [hr] at hr'
    exact ⟨p, hp, hs, (List.cons.inj hr').2.symm⟩
  · exact absurd hr (hne stop after)

/-- An operand is a label, a negation or an expression in parentheses. -/
theorem operand_ok_cases {lexemes : List Lexeme} {p : Parsed lexemes}
    (h : operand inner finish lexemes = .ok p) :
    (∃ v start, lexemes = ⟨.label v.label, start⟩ :: p.rest ∧ p.sentence = .atom v) ∨
    (∃ start rest, ∃ target : Parsed rest, lexemes = ⟨.negation, start⟩ :: rest ∧
      inner Token.negation.bindingPower rest = .ok target ∧
      p.sentence = .negation target.sentence ∧ p.rest = target.rest) ∨
    (∃ start rest stop, ∃ content : Parsed rest, lexemes = ⟨.leftParenthesis, start⟩ :: rest ∧
      inner 0 rest = .ok content ∧ p.sentence = content.sentence ∧
      content.rest = ⟨.rightParenthesis, stop⟩ :: p.rest) := by
  match lexemes with
  | [] => cases h
  | ⟨.label text, start⟩ :: rest =>
    rw [operand] at h
    split at h
    · next v hv =>
      obtain rfl : v.label = text := Variable.ofLabel_eq_ok_iff.mp hv
      cases h
      exact .inl ⟨v, start, rfl, rfl⟩
    · cases h
  | ⟨.negation, start⟩ :: rest =>
    rw [operand_negation] at h
    cases ht : inner Token.negation.bindingPower rest with
    | error e =>
      rw [ht] at h
      cases h
    | ok target =>
      rw [ht] at h
      cases h
      exact .inr (.inl ⟨start, rest, target, rfl, ht, rfl, rfl⟩)
  | ⟨.leftParenthesis, start⟩ :: rest =>
    cases hc : inner 0 rest with
    | error e =>
      rw [operand_group_of_error hc] at h
      cases h
    | ok content =>
      rcases operand_group_cases start hc with ⟨stop, q, hq, hs, hr⟩ | ⟨-, he⟩
      · rw [hq] at h
        obtain rfl : q = p := Except.ok.inj h
        exact .inr (.inr ⟨start, rest, stop, content, rfl, hc, hs, hr⟩)
      · rw [he] at h
        cases h
  | ⟨.connective c, start⟩ :: rest => cases h
  | ⟨.rightParenthesis, start⟩ :: rest => cases h

/-- What follows is left alone unless it binds tighter than the limit. -/
theorem operators_of_le {power : Nat} {lexemes : List Lexeme} {left : Parsed lexemes}
    (h : Token.nextBindingPower (next left.rest) ≤ power) :
    operators inner power left = .ok left := by
  rw [operators]
  split
  · rfl
  · next token start rest hr =>
    rw [hr] at h
    exact if_neg (Nat.not_lt.mpr h)

/-- A connective that binds tighter than the limit is read with its right operand. -/
theorem operators_connective {power start : Nat} {c : Connective} {lexemes rest : List Lexeme}
    {left : Parsed lexemes} (hr : left.rest = ⟨.connective c, start⟩ :: rest)
    (hp : power < c.bindingPower) :
    operators inner power left =
      (inner c.bindingPower rest).bind fun right ↦ operators inner power (left.join hr right) := by
  rw [operators]
  split
  · next he =>
    rw [hr] at he
    cases he
  · next token start' rest' he =>
    rw [hr] at he
    cases he
    exact if_pos hp

/-- Any other token that binds tighter than the limit is refused. -/
theorem operators_unexpected {power start : Nat} {token : Token} {lexemes rest : List Lexeme}
    {left : Parsed lexemes} (hr : left.rest = ⟨token, start⟩ :: rest)
    (hp : power < token.bindingPower) (ht : ∀ c, token ≠ .connective c) :
    operators inner power left = .error (.unexpected .operator (some token) start) := by
  rw [operators]
  split
  · next he =>
    rw [hr] at he
    cases he
  · next token' start' rest' he =>
    rw [hr] at he
    cases he
    rw [if_pos hp]
    cases token with
    | connective c => exact absurd rfl (ht c)
    | label text => rfl
    | negation => rfl
    | leftParenthesis => rfl
    | rightParenthesis => rfl

/-- What comes next does not bind tighter than the limit, or is a connective, or is refused. -/
theorem operators_cases (power : Nat) {lexemes : List Lexeme} (left : Parsed lexemes) :
    Token.nextBindingPower (next left.rest) ≤ power ∨
    (∃ c start rest, left.rest = ⟨.connective c, start⟩ :: rest ∧ power < c.bindingPower) ∨
    ∃ token start rest, left.rest = ⟨token, start⟩ :: rest ∧ power < token.bindingPower ∧
      ∀ c, token ≠ .connective c := by
  by_cases hp : Token.nextBindingPower (next left.rest) ≤ power
  · exact .inl hp
  · rw [Nat.not_le] at hp
    obtain ⟨others, hr⟩ : ∃ others, left.rest = others := ⟨left.rest, rfl⟩
    cases others with
    | nil =>
      rw [hr] at hp
      exact absurd hp (Nat.not_lt_zero power)
    | cons lexeme rest =>
      obtain ⟨token, start⟩ := lexeme
      rw [hr] at hp
      change power < token.bindingPower at hp
      by_cases ht : ∃ c, token = .connective c
      · obtain ⟨c, rfl⟩ := ht
        exact .inr (.inl ⟨c, start, rest, hr, hp⟩)
      · exact .inr (.inr ⟨token, start, rest, hr, hp, fun c hc ↦ ht ⟨c, hc⟩⟩)

/-- Reading operators ends before what does not bind tighter than the limit, or reads a
connective with its right operand and goes on. -/
theorem operators_ok_cases {power : Nat} {lexemes : List Lexeme} {left p : Parsed lexemes}
    (h : operators inner power left = .ok p) :
    (Token.nextBindingPower (next left.rest) ≤ power ∧ p = left) ∨
    (∃ c start rest, ∃ right : Parsed rest,
      ∃ hr : left.rest = ⟨.connective c, start⟩ :: rest, power < c.bindingPower ∧
        inner c.bindingPower rest = .ok right ∧
        operators inner power (left.join hr right) = .ok p) := by
  rcases operators_cases power left with hp | ⟨c, start, rest, hr, hp⟩ |
    ⟨token, start, rest, hr, hp, ht⟩
  · rw [operators_of_le hp] at h
    exact .inl ⟨hp, (Except.ok.inj h).symm⟩
  · rw [operators_connective hr hp] at h
    cases hi : inner c.bindingPower rest with
    | error e =>
      rw [hi] at h
      cases h
    | ok right =>
      rw [hi] at h
      exact .inr ⟨c, start, rest, right, hr, hp, hi, h⟩
  · rw [operators_unexpected hr hp ht] at h
    cases h

/-! ### Errors -/

/-- An error at a place within the lexemes: not one of a text that has none. -/
def IsWithin : ParseError → Prop
  | .unexpected .. | .tooDeep .. | .label _ => True
  | .empty | .unrecognised _ => False

/-- A reader whose errors are all within the lexemes. -/
def FailsWithin (reader : ExpressionReader) : Prop :=
  ∀ {power : Nat} {lexemes : List Lexeme} {e : ParseError}, reader power lexemes = .error e →
    IsWithin e

/-- Errors in operands are within the lexemes. -/
theorem FailsWithin.operand (hi : FailsWithin inner) {lexemes : List Lexeme} {e : ParseError}
    (h : operand inner finish lexemes = .error e) : IsWithin e := by
  match lexemes with
  | [] =>
    cases h
    trivial
  | ⟨.label text, start⟩ :: rest =>
    rw [Parser.operand] at h
    split at h
    · cases h
    · cases h
      trivial
  | ⟨.negation, start⟩ :: rest =>
    rw [operand_negation] at h
    cases ht : inner Token.negation.bindingPower rest with
    | error e' =>
      rw [ht] at h
      cases h
      exact hi ht
    | ok target =>
      rw [ht] at h
      cases h
  | ⟨.leftParenthesis, start⟩ :: rest =>
    cases hc : inner 0 rest with
    | error e' =>
      rw [operand_group_of_error hc] at h
      cases h
      exact hi hc
    | ok content =>
      rcases operand_group_cases start hc with ⟨stop, q, hq, -⟩ | ⟨-, he⟩
      · rw [hq] at h
        cases h
      · rw [he] at h
        cases h
        trivial
  | ⟨.connective c, start⟩ :: rest =>
    cases h
    trivial
  | ⟨.rightParenthesis, start⟩ :: rest =>
    cases h
    trivial

/-- Errors in the operators and operands that follow are within the lexemes. -/
theorem FailsWithin.operators (hi : FailsWithin inner) {power : Nat} {lexemes : List Lexeme}
    {left : Parsed lexemes} {e : ParseError} (h : operators inner power left = .error e) :
    IsWithin e := by
  induction hm : left.rest.length using Nat.strongRecOn generalizing left with
  | ind m ih =>
    rcases operators_cases power left with hp | ⟨c, start, rest, hr, hp⟩ |
      ⟨token, start, rest, hr, hp, ht⟩
    · rw [operators_of_le hp] at h
      cases h
    · rw [operators_connective hr hp] at h
      cases hright : inner c.bindingPower rest with
      | error e' =>
        rw [hright] at h
        cases h
        exact hi hright
      | ok right =>
        rw [hright] at h
        exact ih _ (by rw [← hm]; exact left.join_rest_lt hr right) h rfl
    · rw [operators_unexpected hr hp ht] at h
      cases h
      trivial

/-- Errors in expressions are within the lexemes. -/
theorem failsWithin_expression (finish levels : Nat) : FailsWithin (expression finish levels) := by
  induction levels with
  | zero =>
    intro power lexemes e h
    cases h
    trivial
  | succ levels ih =>
    intro power lexemes e h
    rw [expression] at h
    cases ho : operand (expression finish levels) finish lexemes with
    | error e' =>
      rw [ho] at h
      cases h
      exact ih.operand ho
    | ok left =>
      rw [ho] at h
      exact ih.operators h

end Parser

end Sentential

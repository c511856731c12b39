import Sentential.Proofs.Grammar.Scan
import Sentential.Sentence.Parser

/-!
# The first error of a scan

Where the scan with pending limits comes to an operand with more limits than there is room for, or
to a token that may not stand there, that is an error. `firstError?` is the first of them. It is
known by the tokens before it, over which the scan runs without an error.
-/

namespace Sentential

/-- Whether the token is a label or a negation, which both bind tighter than all connectives. -/
def Token.isLabelOrNegation : Token → Bool
  | label _ | negation => true
  | connective _ | leftParenthesis | rightParenthesis => false

/-- Labels, negations and connectives hold what surrounds them, and nothing else does. -/
theorem Token.bindingPower_pos_iff {token : Token} :
    0 < token.bindingPower ↔ token.isLabelOrNegation = true ∨ ∃ c, token = .connective c := by
  cases token with
  | label text => exact iff_of_true (by decide : 0 < 100) (.inl rfl)
  | negation => exact iff_of_true (by decide : 0 < 80) (.inl rfl)
  | connective c => exact iff_of_true c.bindingPower_pos (.inr ⟨c, rfl⟩)
  | leftParenthesis => simp [bindingPower, isLabelOrNegation]
  | rightParenthesis => simp [bindingPower, isLabelOrNegation]

namespace Pending

/-! ### The error at one place -/

/-- An operand is due with more limits than there is room for. -/
def State.IsTooDeep (room : Nat) (state : State) : Prop :=
  state.place = .operand ∧ room < state.limits.length

/-- An operand ends, and no parenthesis is open. -/
def State.IsComplete (state : State) : Prop :=
  state.place = .operator ∧ .group ∉ state.limits

/-- What comes next may stand there. -/
def State.Admits (state : State) : Option Token → Prop
  | some token => (step? state token).isSome = true
  | none => state.IsComplete

/-- Depth is decided by place and number of limits. -/
instance (room : Nat) (state : State) : Decidable (state.IsTooDeep room) :=
  inferInstanceAs (Decidable (_ ∧ _))

/-- Completeness is decided by place and limits. -/
instance (state : State) : Decidable state.IsComplete :=
  inferInstanceAs (Decidable (_ ∧ _))

/-- What may stand somewhere is decided by a step. -/
instance (state : State) : (found : Option Token) → Decidable (state.Admits found)
  | some token => inferInstanceAs (Decidable ((step? state token).isSome = true))
  | none => inferInstanceAs (Decidable state.IsComplete)

/-- What is asked for in place of what was found. -/
def State.expectation (state : State) (found : Option Token) : Expectation :=
  match state.place with
  | .operand => .operand
  | .operator =>
    if found.any Token.isLabelOrNegation then .operator
    else if .group ∈ state.limits then .closing
    else .finish

/-- The error at a place, if there is one. Depth counts before anything else. -/
def State.error? (room finish : Nat) (state : State) (lexemes : List Lexeme) :
    Option ParseError :=
  if state.IsTooDeep room then some (.tooDeep maxNesting (Parser.position finish lexemes))
  else if state.Admits (Parser.next lexemes) then none
  else some (Parser.unexpected (state.expectation (Parser.next lexemes)) finish lexemes)

variable {room finish : Nat} {state : State} {lexemes : List Lexeme}

/-- An error at a place is that it is too deep, or else that something is unexpected there. -/
theorem State.error?_cases {e : ParseError} (h : state.error? room finish lexemes = some e) :
    .tooDeep maxNesting (Parser.position finish lexemes) = e ∨
      Parser.unexpected (state.expectation (Parser.next lexemes)) finish lexemes = e := by
  rw [error?] at h
  split at h
  · exact .inl (Option.some.inj h)
  · split at h
    · cases h
    · exact .inr (Option.some.inj h)

/-- No error is where what comes next may stand there and there is room. -/
theorem State.error?_eq_none_iff :
    state.error? room finish lexemes = none ↔
      ¬state.IsTooDeep room ∧ state.Admits (Parser.next lexemes) := by
  rw [error?]
  split
  · next hdeep => simp [hdeep]
  · next hdeep =>
    split
    · next hadmits => simp [hdeep, hadmits]
    · next hadmits => simp [hadmits]

/-- No error is where a token can be scanned and there is room. -/
theorem State.error?_cons_eq_none_iff {lexeme : Lexeme} {rest : List Lexeme} :
    state.error? room finish (lexeme :: rest) = none ↔
      ¬state.IsTooDeep room ∧ ∃ later, step? state lexeme.token = some later := by
  rw [error?_eq_none_iff, ← Option.isSome_iff_exists]
  rfl

/-- The nesting is exceeded where there is no room, whatever comes next. -/
theorem State.error?_eq_tooDeep_iff {limit position : Nat} :
    state.error? room finish lexemes = some (.tooDeep limit position) ↔
      state.IsTooDeep room ∧ maxNesting = limit ∧ Parser.position finish lexemes = position := by
  rw [error?]
  split
  · next hdeep => simp [hdeep]
  · next hdeep =>
    split
    · simp [hdeep]
    · simp [hdeep, Parser.unexpected]

/-- Something is unexpected where there is room and it may not stand there. -/
theorem State.error?_eq_unexpected_iff {expected : Expectation} {found : Option Token}
    {position : Nat} :
    state.error? room finish lexemes = some (.unexpected expected found position) ↔
      ¬state.IsTooDeep room ∧ ¬state.Admits found ∧ state.expectation found = expected ∧
        Parser.next lexemes = found ∧ Parser.position finish lexemes = position := by
  rw [error?]
  split
  · next hdeep => simp [hdeep]
  · next hdeep =>
    split
    · next hadmits =>
      simp only [reduceCtorEq, false_iff]
      rintro ⟨-, hnot, -, rfl, -⟩
      exact hnot hadmits
    · next hadmits =>
      simp only [Parser.unexpected, Option.some.injEq, ParseError.unexpected.injEq]
      constructor
      · rintro ⟨rfl, rfl, rfl⟩
        exact ⟨hdeep, hadmits, rfl, rfl, rfl⟩
      · rintro ⟨-, -, rfl, rfl, rfl⟩
        exact ⟨rfl, rfl, rfl⟩

/-! ### The first error -/

/-- The first error of a scan. -/
def firstError? (room finish : Nat) : State → List Lexeme → Option ParseError
  | state, [] => state.error? room finish []
  | state, lexeme :: rest =>
    (state.error? room finish (lexeme :: rest)).or
      ((step? state lexeme.token).bind fun later ↦ firstError? room finish later rest)

/-- An error at the place where the scan is comes first. -/
theorem firstError?_of_error? {e : ParseError} (h : state.error? room finish lexemes = some e) :
    firstError? room finish state lexemes = some e := by
  cases lexemes with
  | nil => exact h
  | cons lexeme rest => rw [firstError?, h, Option.some_or]

/-- The scan goes on over a token that may stand there. -/
theorem firstError?_of_step? {lexeme : Lexeme} {rest : List Lexeme} {later : State}
    (hdeep : ¬state.IsTooDeep room) (hstep : step? state lexeme.token = some later) :
    firstError? room finish state (lexeme :: rest) = firstError? room finish later rest := by
  have hnone : state.error? room finish (lexeme :: rest) = none :=
    State.error?_cons_eq_none_iff.mpr ⟨hdeep, later, hstep⟩
  rw [firstError?, hnone, hstep, Option.none_or, Option.bind_some]

/-- What may not stand somewhere is the first error there. -/
theorem firstError?_of_not_admits {expected : Expectation} (hdeep : ¬state.IsTooDeep room)
    (hadmits : ¬state.Admits (Parser.next lexemes))
    (he : state.expectation (Parser.next lexemes) = expected) :
    firstError? room finish state lexemes = some (Parser.unexpected expected finish lexemes) :=
  firstError?_of_error? (State.error?_eq_unexpected_iff.mpr ⟨hdeep, hadmits, he, rfl, rfl⟩)

/-! ### Where an operand ends -/

/-- Where an operand ends, depth does not matter. -/
theorem not_isTooDeep_operator (room : Nat) (limits : List Limit) :
    ¬State.IsTooDeep room ⟨.operator, limits⟩ := fun h ↦ nomatch h.1

/-- After an operand connectives may stand, closing parentheses if there is something to close, and
the end if there is not. -/
theorem admits_operator_iff {limits : List Limit} {found : Option Token} :
    State.Admits ⟨.operator, limits⟩ found ↔
      (∃ c, found = some (.connective c)) ∨ (found = some .rightParenthesis ∧ .group ∈ limits) ∨
        (found = none ∧ .group ∉ limits) := by
  cases found with
  | none => simp [State.Admits, State.IsComplete]
  | some token =>
    cases token with
    | connective c => simp [State.Admits, step?]
    | rightParenthesis => simp [State.Admits, step?, isSome_leaveGroup?]
    | label text => simp [State.Admits, step?]
    | negation => simp [State.Admits, step?]
    | leftParenthesis => simp [State.Admits, step?]

/-- Where nothing binds, no connective is what may stand after an operand. -/
theorem admits_operator_iff_of_le {limits : List Limit} {found : Option Token}
    (h : Token.nextBindingPower found ≤ 0) :
    State.Admits ⟨.operator, limits⟩ found ↔
      (found = some .rightParenthesis ∧ .group ∈ limits) ∨ (found = none ∧ .group ∉ limits) := by
  rw [admits_operator_iff]
  apply or_iff_right
  rintro ⟨c, rfl⟩
  exact Nat.not_lt.mpr h c.bindingPower_pos

/-- Where nothing binds and what comes next may not stand there, the closing parenthesis is asked
for, or the end. -/
theorem firstError?_operator_of_not_admits {limits : List Limit}
    (h : Token.nextBindingPower (Parser.next lexemes) ≤ 0)
    (hadmits : ¬State.Admits ⟨.operator, limits⟩ (Parser.next lexemes)) :
    firstError? room finish ⟨.operator, limits⟩ lexemes =
      some (Parser.unexpected (if .group ∈ limits then .closing else .finish) finish lexemes) := by
  have hloose : (Parser.next lexemes).any Token.isLabelOrNegation = false := by
    rw [Option.any_eq_false]
    intro token ht
    rw [ht] at h
    rw [Bool.eq_false_iff]
    intro hbinds
    exact Nat.not_lt.mpr h (Token.bindingPower_pos_iff.mpr (.inl hbinds))
  apply firstError?_of_not_admits (not_isTooDeep_operator room _) hadmits
  rw [State.expectation, hloose, if_neg Bool.false_ne_true]

/-- In place of a label or a negation an operator is asked for after an operand. -/
theorem firstError?_operator_of_isLabelOrNegation {limits : List Limit} {token : Token}
    (h : token.isLabelOrNegation = true) (start : Nat) (rest : List Lexeme) :
    firstError? room finish ⟨.operator, limits⟩ (⟨token, start⟩ :: rest) =
      some (.unexpected .operator (some token) start) := by
  have hadmits : ¬State.Admits ⟨.operator, limits⟩ (some token) := by
    rw [admits_operator_iff]
    rintro (⟨c, hc⟩ | ⟨hc, -⟩ | ⟨hc, -⟩) <;> cases hc
    · cases h
    · cases h
  apply firstError?_of_not_admits (not_isTooDeep_operator room _) hadmits
  exact if_pos h

/-- A limit makes no difference to a token that does not exceed it. -/
theorem step?_operator_cons {value : Nat} {token : Token} (h : token.bindingPower ≤ value)
    (limits : List Limit) :
    step? ⟨.operator, .power value :: limits⟩ token = step? ⟨.operator, limits⟩ token := by
  cases token with
  | connective c =>
    have hdrop : (Limit.power value :: limits).dropWhile
        (fun l ↦ decide (c.bindingPower ≤ l.value)) =
          limits.dropWhile fun l ↦ decide (c.bindingPower ≤ l.value) :=
      List.dropWhile_cons_of_pos (decide_eq_true h)
    rw [step?_operator_connective, step?_operator_connective, hdrop]
  | rightParenthesis => rfl
  | label text => rfl
  | negation => rfl
  | leftParenthesis => rfl

/-- A limit makes no difference to what follows where that does not begin by exceeding it. -/
theorem firstError?_operator_cons {value : Nat}
    (h : Token.nextBindingPower (Parser.next lexemes) ≤ value) (limits : List Limit) :
    firstError? room finish ⟨.operator, .power value :: limits⟩ lexemes =
      firstError? room finish ⟨.operator, limits⟩ lexemes := by
  have hgroup : Limit.group ∈ Limit.power value :: limits ↔ Limit.group ∈ limits := by simp
  have hadmits : State.Admits ⟨.operator, .power value :: limits⟩ (Parser.next lexemes) ↔
      State.Admits ⟨.operator, limits⟩ (Parser.next lexemes) := by
    rw [admits_operator_iff, admits_operator_iff, hgroup]
  have herror : State.error? room finish ⟨.operator, .power value :: limits⟩ lexemes =
      State.error? room finish ⟨.operator, limits⟩ lexemes := by
    simp only [State.error?, not_isTooDeep_operator, hadmits, State.expectation, hgroup]
  cases lexemes with
  | nil => exact herror
  | cons lexeme rest =>
    rw [firstError?, firstError?, herror, step?_operator_cons h]

/-! ### Places that a scan reaches -/

/-- Where a scan is after some tokens, if it has not come too deep on the way. -/
def State.Reaches (room : Nat) (state : State) (before : List Token) (later : State) : Prop :=
  state.run? before = some later ∧
    ∀ i < before.length, ∀ earlier, state.run? (before.take i) = some earlier →
      ¬earlier.IsTooDeep room

/-- A scan begins where it is. -/
@[simp] theorem State.reaches_nil {later : State} :
    state.Reaches room [] later ↔ state = later := by
  simp [Reaches]

/-- A scan over a token goes on from the state after it. -/
theorem State.reaches_cons {token : Token} {before : List Token} {later : State} :
    state.Reaches room (token :: before) later ↔
      ¬state.IsTooDeep room ∧ ∃ next, step? state token = some next ∧
        next.Reaches room before later := by
  rw [Reaches, run?_cons, Option.bind_eq_some_iff]
  constructor
  · rintro ⟨⟨next, hstep, hrun⟩, hroom⟩
    refine ⟨hroom 0 (Nat.zero_lt_succ _) state rfl, next, hstep, hrun, fun i hi earlier he ↦ ?_⟩
    apply hroom (i + 1) (Nat.succ_lt_succ hi) earlier
    rw [List.take_succ_cons, run?_cons, hstep]
    exact he
  · rintro ⟨hdeep, next, hstep, hrun, hroom⟩
    refine ⟨⟨next, hstep, hrun⟩, fun i hi earlier he ↦ ?_⟩
    cases i with
    | zero =>
      obtain rfl : state = earlier := by simpa using he
      exact hdeep
    | succ i =>
      rw [List.take_succ_cons, run?_cons, hstep] at he
      exact hroom i (Nat.lt_of_succ_lt_succ hi) earlier he

/-- The first error is the error of a place that the scan reaches. -/
theorem firstError?_eq_some_iff {e : ParseError} :
    firstError? room finish state lexemes = some e ↔
      ∃ i ≤ lexemes.length, ∃ later,
        state.Reaches room ((lexemes.take i).map Lexeme.token) later ∧
        later.error? room finish (lexemes.drop i) = some e := by
  induction lexemes generalizing state with
  | nil =>
    constructor
    · intro h
      exact ⟨0, Nat.le_refl 0, state, State.reaches_nil.mpr rfl, h⟩
    · rintro ⟨i, -, later, hreach, he⟩
      obtain rfl : state = later := by simpa using hreach
      rw [List.drop_nil] at he
      exact he
  | cons lexeme rest ih =>
    cases hhere : state.error? room finish (lexeme :: rest) with
    | some e' =>
      rw [firstError?_of_error? hhere]
      constructor
      · intro h
        exact ⟨0, Nat.zero_le _, state, State.reaches_nil.mpr rfl, hhere.trans h⟩
      · rintro ⟨i, -, later, hreach, he⟩
        cases i with
        | zero =>
          obtain rfl : state = later := by simpa using hreach
          exact hhere.symm.trans he
        | succ i =>
          -- the scan does not get past an error
          rw [List.take_succ_cons, List.map_cons, State.reaches_cons] at hreach
          obtain ⟨hdeep, next, hstep, -⟩ := hreach
          rw [State.error?_cons_eq_none_iff.mpr ⟨hdeep, next, hstep⟩] at hhere
          cases hhere
    | none =>
      obtain ⟨hdeep, next, hstep⟩ := State.error?_cons_eq_none_iff.mp hhere
      rw [firstError?_of_step? hdeep hstep, ih]
      constructor
      · rintro ⟨i, hi, later, hreach, he⟩
        refine ⟨i + 1, Nat.succ_le_succ hi, later, ?_, he⟩
        exact State.reaches_cons.mpr ⟨hdeep, next, hstep, hreach⟩
      · rintro ⟨i, hi, later, hreach, he⟩
        cases i with
        | zero =>
          obtain rfl : state = later := by simpa using hreach
          exact absurd (hhere.symm.trans he) (by simp)
        | succ i =>
          rw [List.take_succ_cons, List.map_cons, State.reaches_cons] at hreach
          obtain ⟨-, next', hstep', hreach⟩ := hreach
          obtain rfl : next = next' := Option.some.inj (hstep.symm.trans hstep')
          exact ⟨i, Nat.le_of_succ_le_succ hi, later, hreach, he⟩

/-- There is no error where all tokens can be scanned and complete an expression. -/
theorem firstError?_eq_none_iff :
    firstError? room finish state lexemes = none ↔
      ∃ later, state.Reaches room (lexemes.map Lexeme.token) later ∧ later.IsComplete := by
  induction lexemes generalizing state with
  | nil =>
    change state.error? room finish [] = none ↔ _
    rw [State.error?_eq_none_iff]
    constructor
    · rintro ⟨-, hcomplete⟩
      exact ⟨state, State.reaches_nil.mpr rfl, hcomplete⟩
    · rintro ⟨later, hreach, hcomplete⟩
      obtain rfl : state = later := by simpa using hreach
      refine ⟨fun hdeep ↦ ?_, hcomplete⟩
      have hplace := hcomplete.1.symm.trans hdeep.1
      cases hplace
  | cons lexeme rest ih =>
    simp only [List.map_cons, State.reaches_cons]
    cases hhere : state.error? room finish (lexeme :: rest) with
    | some e =>
      rw [firstError?_of_error? hhere]
      simp only [reduceCtorEq, false_iff]
      rintro ⟨later, ⟨hdeep, next, hstep, -⟩, -⟩
      rw [State.error?_cons_eq_none_iff.mpr ⟨hdeep, next, hstep⟩] at hhere
      cases hhere
    | none =>
      obtain ⟨hdeep, next, hstep⟩ := State.error?_cons_eq_none_iff.mp hhere
      rw [firstError?_of_step? hdeep hstep, ih]
      simp [hdeep, hstep]

end Pending

end Sentential

import Sentential.Grammar.Pending
import Sentential.Proofs.Grammar.Formed

/-!
# The scan with pending limits

What one token does to the place and to the pending limits, and what follows for some tokens: the
last of them says what is due next, and the open parentheses among them are the marked limits.
-/

namespace Sentential

/-- Whether an operand is due after the token. -/
def Token.opensOperand : Token → Bool
  | negation | connective _ | leftParenthesis => true
  | label _ | rightParenthesis => false

namespace Pending

/-! ### Limits -/

/-- A limit of an operator is not that of a parenthesis. -/
@[simp] theorem leaveGroup?_power (value : Nat) (limits : List Limit) :
    leaveGroup? (.power value :: limits) = leaveGroup? limits := rfl

/-- The innermost parenthesis is left. -/
@[simp] theorem leaveGroup?_group (limits : List Limit) :
    leaveGroup? (.group :: limits) = some limits := rfl

/-- Without limits there is no parenthesis to leave. -/
@[simp] theorem leaveGroup?_nil : leaveGroup? [] = none := rfl

/-- A parenthesis that is left was open and is no longer, and no limit is added. -/
theorem leaveGroup?_eq_some {limits outer : List Limit} (h : leaveGroup? limits = some outer) :
    limits.count .group = outer.count .group + 1 ∧ outer.length < limits.length := by
  induction limits with
  | nil => simp at h
  | cons limit limits ih =>
    cases limit with
    | power value =>
      rw [leaveGroup?_power] at h
      obtain ⟨hcount, hlength⟩ := ih h
      simp only [List.count_cons, List.length_cons, hcount]
      exact ⟨by simp, by omega⟩
    | group =>
      obtain rfl : limits = outer := by simpa using h
      simp

/-- A parenthesis can be left exactly where one is open. -/
theorem isSome_leaveGroup? {limits : List Limit} :
    (leaveGroup? limits).isSome = true ↔ .group ∈ limits := by
  induction limits with
  | nil => simp
  | cons limit limits ih =>
    cases limit with
    | power value => simp [ih]
    | group => simp

/-- Limits that an operator closes are not those of parentheses. -/
theorem count_group_dropWhile (c : Connective) (limits : List Limit) :
    (limits.dropWhile fun l ↦ decide (c.bindingPower ≤ l.value)).count .group =
      limits.count .group := by
  induction limits with
  | nil => rfl
  | cons limit limits ih =>
    rw [List.dropWhile_cons]
    split
    · next hdrop =>
      cases limit with
      | power value => rw [ih, List.count_cons_of_ne (by simp)]
      | group =>
        have hle : c.bindingPower ≤ 0 := of_decide_eq_true hdrop
        exact absurd c.bindingPower_pos (Nat.not_lt.mpr hle)
    · rfl

/-! ### Steps -/

variable {state later : State} {token : Token}

/-- An operator closes the limits that it does not exceed, and opens its own. -/
theorem step?_operator_connective (c : Connective) (limits : List Limit) :
    step? ⟨.operator, limits⟩ (.connective c) =
      some ⟨.operand, .power c.bindingPower ::
        limits.dropWhile fun l ↦ decide (c.bindingPower ≤ l.value)⟩ := rfl

/-- All that a token can do. -/
theorem step?_cases (h : step? state token = some later) :
    (∃ text, token = .label text ∧ state.place = .operand ∧
      later = ⟨.operator, state.limits⟩) ∨
    (token = .negation ∧ state.place = .operand ∧
      later = ⟨.operand, .power token.bindingPower :: state.limits⟩) ∨
    (token = .leftParenthesis ∧ state.place = .operand ∧
      later = ⟨.operand, .group :: state.limits⟩) ∨
    (∃ c, token = .connective c ∧ state.place = .operator ∧
      later = ⟨.operand, .power c.bindingPower ::
        state.limits.dropWhile fun l ↦ decide (c.bindingPower ≤ l.value)⟩) ∨
    (∃ outer, token = .rightParenthesis ∧ state.place = .operator ∧
      leaveGroup? state.limits = some outer ∧ later = ⟨.operator, outer⟩) := by
  obtain ⟨place, limits⟩ := state
  cases place with
  | operand =>
    cases token with
    | label text => exact .inl ⟨text, rfl, rfl, (Option.some.inj h).symm⟩
    | negation => exact .inr (.inl ⟨rfl, rfl, (Option.some.inj h).symm⟩)
    | leftParenthesis => exact .inr (.inr (.inl ⟨rfl, rfl, (Option.some.inj h).symm⟩))
    | connective c => cases h
    | rightParenthesis => cases h
  | operator =>
    cases token with
    | connective c =>
      exact .inr (.inr (.inr (.inl ⟨c, rfl, rfl, (Option.some.inj h).symm⟩)))
    | rightParenthesis =>
      obtain ⟨outer, hleave, rfl⟩ := Option.map_eq_some_iff.mp h
      exact .inr (.inr (.inr (.inr ⟨outer, rfl, rfl, hleave, rfl⟩)))
    | label text => cases h
    | negation => cases h
    | leftParenthesis => cases h

/-- The last token says what is due. -/
theorem place_of_step? (h : step? state token = some later) :
    later.place = .operand ↔ token.opensOperand = true := by
  rcases step?_cases h with ⟨text, rfl, -, rfl⟩ | ⟨rfl, -, rfl⟩ | ⟨rfl, -, rfl⟩ | ⟨c, rfl, -, rfl⟩ |
    ⟨outer, rfl, -, -, rfl⟩ <;> simp [Token.opensOperand]

/-- A token adds one limit at most. -/
theorem length_limits_of_step? (h : step? state token = some later) :
    later.limits.length ≤ state.limits.length + 1 := by
  rcases step?_cases h with ⟨text, rfl, -, rfl⟩ | ⟨rfl, -, rfl⟩ | ⟨rfl, -, rfl⟩ | ⟨c, rfl, -, rfl⟩ |
    ⟨outer, rfl, -, hleave, rfl⟩
  · exact Nat.le_succ _
  · simp
  · simp
  · have := (List.dropWhile_suffix (l := state.limits)
      fun l ↦ decide (c.bindingPower ≤ l.value)).length_le
    simpa using this
  · have := (leaveGroup?_eq_some hleave).2
    simp only
    omega

/-- Opening parentheses open a group, closing ones close a group, and nothing else does. -/
theorem count_group_of_step? (h : step? state token = some later) :
    later.limits.count .group + [token].count .rightParenthesis =
      state.limits.count .group + [token].count .leftParenthesis := by
  rcases step?_cases h with ⟨text, rfl, -, rfl⟩ | ⟨rfl, -, rfl⟩ | ⟨rfl, -, rfl⟩ | ⟨c, rfl, -, rfl⟩ |
    ⟨outer, rfl, -, hleave, rfl⟩
  · simp
  · simp
  · simp
  · simp [count_group_dropWhile]
  · simp [(leaveGroup?_eq_some hleave).1]

/-! ### Runs -/

/-- The state after some tokens that follow a state. -/
def State.run? (state : State) (tokens : List Token) : Option State := tokens.foldlM step? state

/-- No tokens leave the state as it is. -/
@[simp] theorem State.run?_nil (state : State) : state.run? [] = some state := rfl

/-- The first token is scanned before the others. -/
theorem State.run?_cons (state : State) (token : Token) (rest : List Token) :
    state.run? (token :: rest) = (step? state token).bind fun next ↦ next.run? rest := by
  rw [run?, List.foldlM_cons]
  rfl

/-- Tokens in two parts are scanned one part after the other. -/
theorem State.run?_append (state : State) (first second : List Token) :
    state.run? (first ++ second) = (state.run? first).bind fun next ↦ next.run? second := by
  rw [run?, List.foldlM_append]
  rfl

/-- One more token is scanned last. -/
theorem State.run?_concat (state : State) (before : List Token) (token : Token) :
    state.run? (before ++ [token]) = (state.run? before).bind fun next ↦ step? next token := by
  rw [run?_append]
  congr 1
  funext next
  rw [run?_cons]
  cases step? next token <;> rfl

variable {tokens : List Token}

/-- An operand is due at the beginning and after the tokens that an operand follows. -/
theorem place_of_run? (h : start.run? tokens = some later) :
    later.place = .operand ↔ ∀ last ∈ tokens.getLast?, last.opensOperand = true := by
  rcases List.eq_nil_or_concat tokens with rfl | ⟨before, token, rfl⟩
  · obtain rfl : start = later := by simpa using h
    simp [start]
  · rw [List.concat_eq_append, State.run?_concat, Option.bind_eq_some_iff] at h
    obtain ⟨state, -, hstep⟩ := h
    simpa using place_of_step? hstep

/-- There are no more limits than tokens were scanned. -/
theorem length_limits_of_run? (h : state.run? tokens = some later) :
    later.limits.length ≤ state.limits.length + tokens.length := by
  induction tokens generalizing state with
  | nil =>
    obtain rfl : state = later := by simpa using h
    exact Nat.le_refl _
  | cons token rest ih =>
    rw [State.run?_cons, Option.bind_eq_some_iff] at h
    obtain ⟨next, hstep, hrest⟩ := h
    have hone := length_limits_of_step? hstep
    have hmore := ih hrest
    rw [List.length_cons]
    omega

/-- The groups are the parentheses that were opened and not closed. -/
theorem count_group_of_run? (h : state.run? tokens = some later) :
    later.limits.count .group + tokens.count .rightParenthesis =
      state.limits.count .group + tokens.count .leftParenthesis := by
  induction tokens generalizing state with
  | nil =>
    obtain rfl : state = later := by simpa using h
    rfl
  | cons token rest ih =>
    rw [State.run?_cons, Option.bind_eq_some_iff] at h
    obtain ⟨next, hstep, hrest⟩ := h
    have hone := count_group_of_step? hstep
    have hmore := ih hrest
    rw [← List.singleton_append, List.count_append, List.count_append]
    omega

end Pending

end Sentential

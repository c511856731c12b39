import Sentential.Token

/-!
# Pending limits

Tokens are scanned from left to right with a stack of the limits that are pending: below the
first operand the limit 0, below each negation and right operand the binding power of what it
belongs to, and below each open parenthesis a marked 0. The height of the stack at an operand is
the number of operands and parentheses that are still open there.
-/

namespace Sentential

namespace Pending

/-- A pending limit. -/
inductive Limit where
  /-- The binding power of an operator whose operand is still open. -/
  | power (value : Nat)
  /-- An open parenthesis, in which the limit is 0. -/
  | group
  deriving DecidableEq

/-- The binding power that an operator has to exceed to continue the open operand. -/
def Limit.value : Limit → Nat
  | power value => value
  | group => 0

/-- What is due next. -/
inductive Place where
  | operand
  | operator
  deriving DecidableEq

/-- What is due next, and the pending limits from the innermost to the outermost. -/
structure State where
  /-- What is due next. -/
  place : Place
  /-- The pending limits, the innermost first. -/
  limits : List Limit
  deriving DecidableEq

/-- An operand is due, with the limit 0. -/
def start : State := ⟨.operand, [.power 0]⟩

/-- The limits outside of the innermost parenthesis, if there is one. -/
def leaveGroup? (limits : List Limit) : Option (List Limit) :=
  (limits.dropWhile fun l ↦ decide (l ≠ .group)).tail?

/-- The state after a token, if the token may stand there. -/
def step? (state : State) (token : Token) : Option State :=
  match state.place, token with
  | .operand, .label _ => some ⟨.operator, state.limits⟩
  | .operand, .negation => some ⟨.operand, .power token.bindingPower :: state.limits⟩
  | .operand, .leftParenthesis => some ⟨.operand, .group :: state.limits⟩
  | .operator, .connective c =>
    some ⟨.operand, .power c.bindingPower ::
      state.limits.dropWhile fun l ↦ decide (c.bindingPower ≤ l.value)⟩
  | .operator, .rightParenthesis => (leaveGroup? state.limits).map fun limits ↦ ⟨.operator, limits⟩
  | _, _ => none

/-- The state after some tokens, if each of them may stand where it does. -/
def run? (tokens : List Token) : Option State := tokens.foldlM step? start

end Pending

end Sentential

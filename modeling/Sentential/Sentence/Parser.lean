import Sentential.Account
import Sentential.ParseError
import Sentential.Token.Lexer

/-!
# Reading sentences

Connectives are read by their binding powers: `^` before `|` before the three arrows, negation
before all of them, and connectives of the same power from left to right. Negations, parentheses
and right operands each stand one level deeper than what they belong to, and no operand may
stand deeper than `maxNesting` levels; left operands do not count.

An expression is read by recursion on the levels that are left, and its chain of operators by
recursion on the lexemes that are left, of which every step takes at least one.
-/

namespace Sentential

/-- The deepest level on which an operand may stand. -/
def maxNesting : Nat := 256

namespace Parser

/-- The beginning of some lexemes read as a sentence. -/
structure Parsed (lexemes : List Lexeme) where
  /-- The sentence. -/
  sentence : Sentence
  /-- The lexemes after it. -/
  rest : List Lexeme
  rest_lt : rest.length < lexemes.length

/-- The next token, or nothing at the end of the text. -/
def next (lexemes : List Lexeme) : Option Token := lexemes.head?.map Lexeme.token

/-- The place of the next token, or of the end of the text. -/
def position (finish : Nat) (lexemes : List Lexeme) : Nat :=
  (lexemes.head?.map Lexeme.position).getD finish

/-- The error that something else comes next. -/
def unexpected (expected : Expectation) (finish : Nat) (lexemes : List Lexeme) : ParseError :=
  .unexpected expected (next lexemes) (position finish lexemes)

/-- A reader of expressions: it is told the binding power that an operator has to exceed, and
the lexemes. -/
abbrev ExpressionReader := Nat → (lexemes : List Lexeme) → Except ParseError (Parsed lexemes)

/-- Read an operand: a label, a negation or a parenthesis. The expression in it is read by a
given reader. -/
def operand (inner : ExpressionReader) (finish : Nat) (lexemes : List Lexeme) :
    Except ParseError (Parsed lexemes) :=
  match lexemes with
  | ⟨.label text, _⟩ :: rest =>
    match Variable.ofLabel text with
    | .ok v => .ok ⟨.atom v, rest, Nat.lt_succ_self _⟩
    | .error e => .error (.label e)
  | ⟨.negation, _⟩ :: rest => do
    let target ← inner Token.negation.bindingPower rest
    return ⟨.negation target.sentence, target.rest, Nat.lt_succ_of_lt target.rest_lt⟩
  | ⟨.leftParenthesis, _⟩ :: rest => do
    let content ← inner 0 rest
    match h : content.rest with
    | ⟨.rightParenthesis, _⟩ :: after =>
      return ⟨content.sentence, after, by
        have := content.rest_lt
        simp only [h, List.length_cons] at this ⊢
        omega⟩
    | others => .error (unexpected .closing finish others)
  | others => .error (unexpected .operand finish others)

/-- Read on after a left operand: while an operator comes next that binds tighter than the
given power, its right operand is read and the two form the next left operand. -/
def operators (inner : ExpressionReader) (power : Nat) {lexemes : List Lexeme}
    (left : Parsed lexemes) : Except ParseError (Parsed lexemes) :=
  match h : left.rest with
  | [] => .ok left
  | ⟨token, start⟩ :: rest =>
    if power < token.bindingPower then
      match token with
      | .connective c => do
        let right ← inner c.bindingPower rest
        operators inner power ⟨.binary c left.sentence right.sentence, right.rest, by
          have := left.rest_lt
          have := right.rest_lt
          simp only [h, List.length_cons] at *
          omega⟩
      | _ => .error (.unexpected .operator (some token) start)
    else .ok left
termination_by left.rest.length
decreasing_by
  have := right.rest_lt
  simp only [h, List.length_cons]
  omega

/-- Read an expression with so many levels left for it and all within. -/
def expression (finish : Nat) (levels : Nat) : ExpressionReader := fun power lexemes ↦
  match levels with
  | 0 => .error (.tooDeep maxNesting (position finish lexemes))
  | levels + 1 => do
    let left ← operand (expression finish levels) finish lexemes
    operators (expression finish levels) power left

/-- Read all lexemes of a text as one sentence. -/
def sentence (lexing : Lexing) : Except ParseError Sentence :=
  if lexing.lexemes.isEmpty then .error .empty
  else do
    let whole ← expression lexing.finish (maxNesting + 1) 0 lexing.lexemes
    if whole.rest.isEmpty then return whole.sentence
    else .error (unexpected .finish lexing.finish whole.rest)

end Parser

namespace Sentence

/-- Read a text as a sentence. A text that does not consist of tokens is refused for that before
anything else. The tokens are told before they are read, and the sentence afterwards. -/
def parseAccount (text : String) : Account ParseError Sentence := do
  let lexing ← (Lexing.ofText text).mapError ParseError.unrecognised
  -- The end of the text is a token too.
  Account.tell (.tokenized text (lexing.lexemes.length + 1))
  let sentence ← Parser.sentence lexing
  Account.tell (.parsed text sentence)
  return sentence

/-- The sentence of a text. -/
def parse (text : String) : Except ParseError Sentence := (parseAccount text).result

/-- The sentence of a text is that of its tokens. -/
theorem parse_eq (text : String) :
    parse text =
      match Lexing.ofText text with
      | .error e => .error (.unrecognised e)
      | .ok lexing => Parser.sentence lexing := by
  rw [parse, parseAccount, Account.result_bind, Account.result_lift]
  cases Lexing.ofText text with
  | error e => rfl
  | ok lexing => exact Account.result_bind_tell (liftM (Parser.sentence lexing)) _

end Sentence

end Sentential

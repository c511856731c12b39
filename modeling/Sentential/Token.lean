import Sentential.Connective
import Sentential.Variable

/-!
# Tokens

The words of the written language of sentences: labels, the negation sign, the symbols of the
connectives and parentheses. A lexeme is a token with the place where it starts, in bytes of the
text's UTF-8 form.
-/

namespace Sentential

/-- A word of the language of sentences. -/
inductive Token where
  | label (text : String)
  | negation
  | connective (connective : Connective)
  | leftParenthesis
  | rightParenthesis
  deriving DecidableEq

namespace Token

/-- How the token is written. -/
def spelling : Token → String
  | label text => text
  | negation => "-"
  | connective c => c.symbol
  | leftParenthesis => "("
  | rightParenthesis => ")"

/-- How tightly the token holds what surrounds it; the higher binds first. -/
def bindingPower : Token → Nat
  | label _ => 100
  | negation => 80
  | connective c => c.bindingPower
  | leftParenthesis | rightParenthesis => 0

/-- The token as messages name it. -/
def description (token : Token) : String :=
  match token with
  | label text => "variable \"" ++ text ++ "\""
  | _ => "\"" ++ token.spelling ++ "\""

/-- What comes next as messages name it, where nothing stands for the end of the text. -/
def describeNext : Option Token → String
  | some token => token.description
  | none => "end of input"

/-- How tightly what comes next holds; the end of the text holds nothing. -/
def nextBindingPower : Option Token → Nat
  | some token => token.bindingPower
  | none => 0

end Token

/-- A token and the number of bytes before it. -/
structure Lexeme where
  /-- The token. -/
  token : Token
  /-- The byte offset of the token in the text. -/
  position : Nat
  deriving DecidableEq

/-- A text read as tokens. -/
structure Lexing where
  /-- The lexemes from first to last. -/
  lexemes : List Lexeme
  /-- The byte offset of the end of the text. -/
  finish : Nat
  deriving DecidableEq

/-- A text that does not go on with a token. -/
structure UnrecognisedText where
  /-- The text up to the next blank. -/
  text : String
  /-- The byte offset at which it starts. -/
  position : Nat
  deriving DecidableEq

/-- The wording of the error; the text is shown as it is. -/
def UnrecognisedText.message (e : UnrecognisedText) : String :=
  "unrecognised token \"" ++ e.text ++ "\" at position " ++ toString e.position

end Sentential

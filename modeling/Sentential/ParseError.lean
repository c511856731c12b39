import Sentential.Token

/-!
# What keeps a text from being a sentence

The causes for which a text is refused, and their wording.
-/

namespace Sentential

/-- What the language of sentences asks for at some place. -/
inductive Expectation where
  | operand
  | operator
  | closing
  | finish
  deriving DecidableEq

/-- The expectation as messages name it. -/
def Expectation.description : Expectation → String
  | operand => "variable, \"-\" or \"(\""
  | operator => "binary operator"
  | closing => "\")\""
  | finish => "end of input"

/-- Why a text is refused. -/
inductive ParseError where
  /-- The text has no tokens. -/
  | empty
  /-- Another token, or the end of the text, stands where something else is asked for. -/
  | unexpected (expected : Expectation) (found : Option Token) (position : Nat)
  /-- An operand begins deeper than the limit allows. -/
  | tooDeep (limit position : Nat)
  /-- The text does not consist of tokens. -/
  | unrecognised (error : UnrecognisedText)
  /-- A label does not name a variable. -/
  | label (error : LabelError)
  deriving DecidableEq

/-- The wording of the error. -/
def ParseError.message : ParseError → String
  | empty => "empty expression"
  | unexpected expected found position =>
    "expected " ++ expected.description ++ " but found " ++ Token.describeNext found ++
      " at position " ++ toString position
  | tooDeep limit position =>
    "expression nested deeper than " ++ toString limit ++ " levels at position " ++
      toString position
  | unrecognised error => error.message
  | label error => error.message

end Sentential

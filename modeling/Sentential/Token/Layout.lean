import Sentential.Text.Blank
import Sentential.Token

/-!
# Laying out tokens as text

A layout gives tokens, the text before each of them, and the text after the last. It determines
a text and the places of the tokens in it. The laws of reading say which layouts a text is read
as: those with blank gaps in which every token is as long as it can be.
-/

namespace Sentential

/-- The number of bytes of some characters in UTF-8. -/
def utf8Length : List Char → Nat
  | [] => 0
  | c :: cs => c.utf8Size + utf8Length cs

/-- Whether a token is written in the language of sentences: its label, if it has one, is valid. -/
def Token.IsWord : Token → Prop
  | .label text => isLabel text.toList = true
  | _ => True

/-- Tokens, with the gap before each and the gap after the last. -/
structure Layout where
  /-- The tokens, each with the text right before it. -/
  words : List (List Char × Token)
  /-- The text after the last token. -/
  tail : List Char
  deriving DecidableEq

namespace Layout

/-- The text of words followed by a tail. -/
def spread : List (List Char × Token) → List Char → List Char
  | [], tail => tail
  | (gap, token) :: more, tail => gap ++ (token.spelling.toList ++ spread more tail)

/-- The words as lexemes, where the first gap begins at the given byte offset. -/
def lexemesFrom (position : Nat) : List (List Char × Token) → List Lexeme
  | [] => []
  | (gap, token) :: more =>
    let start := position + utf8Length gap
    ⟨token, start⟩ :: lexemesFrom (start + utf8Length token.spelling.toList) more

/-- The text of a layout. -/
def text (l : Layout) : List Char := spread l.words l.tail

/-- The tokens of a layout. -/
def tokens (l : Layout) : List Token := l.words.map Prod.snd

/-- The tokens with their places, and the end of the text. -/
def lexing (l : Layout) : Lexing := ⟨lexemesFrom 0 l.words, utf8Length l.text⟩

/-- All gaps are blank. -/
def IsBlank (l : Layout) : Prop :=
  (∀ word ∈ l.words, ∀ c ∈ word.1, isBlank c = true) ∧ ∀ c ∈ l.tail, isBlank c = true

/-- A token could not be longer before the given text. -/
def EndsBefore (token : Token) (after : List Char) : Prop :=
  match token with
  | .label _ => ∀ c ∈ after.head?, isLabelPart c = false
  | .connective .reduction => after.head? ≠ some '>'
  | _ => True

/-- Every word is written in the language of sentences and ends where it has to. -/
def AreLongest : List (List Char × Token) → List Char → Prop
  | [], _ => True
  | (_, token) :: more, tail =>
    token.IsWord ∧ EndsBefore token (spread more tail) ∧ AreLongest more tail

/-- The layouts as which texts are read: gaps are blank and tokens are as long as can be. -/
def IsCanonical (l : Layout) : Prop := l.IsBlank ∧ AreLongest l.words l.tail

/-- Two labels next to each other have a gap between them. -/
def AreSeparated : List (List Char × Token) → Prop
  | (_, .label _) :: (gap, .label text) :: more =>
    gap ≠ [] ∧ AreSeparated ((gap, .label text) :: more)
  | _ :: more => AreSeparated more
  | [] => True

end Layout

end Sentential

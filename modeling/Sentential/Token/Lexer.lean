import Sentential.Text.Blank
import Sentential.Token

/-!
# Reading tokens

A text is read as tokens from left to right, with any blank characters between them. Labels and
symbols are taken as long as they go: `<=>` is one token, not `<=` and then `>`. A text that
neither is blank nor starts with a token is an error, shown up to the next blank.
-/

namespace Sentential

namespace Token

/-- The longest label that a text begins with, and the text after it. -/
def readLabel? : List Char → Option (Token × List Char)
  | [] => none
  | c :: rest =>
    if isLabelStart c then
      some (label (String.ofList (c :: rest.takeWhile isLabelPart)), rest.dropWhile isLabelPart)
    else none

/-- The longest symbol that a text begins with, and the text after it. -/
def readSymbol? : List Char → Option (Token × List Char)
  | '-' :: after => some (negation, after)
  | '^' :: after => some (connective .conjunction, after)
  | '|' :: after => some (connective .disjunction, after)
  | '=' :: '>' :: after => some (connective .implication, after)
  | '<' :: '=' :: '>' :: after => some (connective .equivalence, after)
  | '<' :: '=' :: after => some (connective .reduction, after)
  | '(' :: after => some (leftParenthesis, after)
  | ')' :: after => some (rightParenthesis, after)
  | _ => none

/-- The token that a text begins with, and the text after it. -/
def read? (cs : List Char) : Option (Token × List Char) := (readLabel? cs).or (readSymbol? cs)

private theorem spelled_of_readLabel? {cs after : List Char} {token : Token}
    (h : readLabel? cs = some (token, after)) : cs = token.spelling.toList ++ after := by
  unfold readLabel? at h
  split at h
  · cases h
  · split at h <;> cases h
    simp [spelling, List.takeWhile_append_dropWhile]

private theorem spelled_of_readSymbol? {cs after : List Char} {token : Token}
    (h : readSymbol? cs = some (token, after)) : cs = token.spelling.toList ++ after := by
  unfold readSymbol? at h
  split at h <;> cases h <;> rfl

/-- A token read from a text is spelled at its beginning. -/
theorem eq_spelling_append_of_read? {cs after : List Char} {token : Token}
    (h : read? cs = some (token, after)) : cs = token.spelling.toList ++ after := by
  rcases Option.or_eq_some_iff.mp h with h | ⟨_, h⟩
  · exact spelled_of_readLabel? h
  · exact spelled_of_readSymbol? h

/-- Reading a token leaves a shorter text. -/
theorem length_lt_of_read? {cs after : List Char} {token : Token}
    (h : read? cs = some (token, after)) : after.length < cs.length := by
  rcases Option.or_eq_some_iff.mp h with h | ⟨_, h⟩
  · unfold readLabel? at h
    split at h
    · cases h
    · split at h <;> cases h
      exact Nat.lt_succ_of_le (List.dropWhile_suffix isLabelPart).length_le
  · unfold readSymbol? at h
    split at h <;> cases h <;> simp only [List.length_cons] <;> omega

end Token

namespace Lexing

/-- The tokens of the rest of a text that begins at the given byte offset. -/
def scan (position : Nat) (cs : List Char) : Except UnrecognisedText Lexing :=
  match cs with
  | [] => .ok ⟨[], position⟩
  | c :: rest =>
    if isBlank c then scan (position + c.utf8Size) rest
    else
      match _ : Token.read? (c :: rest) with
      | none => .error ⟨String.ofList ((c :: rest).takeWhile (!isBlank ·)), position⟩
      | some (token, after) => do
        let later ← scan (position + token.spelling.utf8ByteSize) after
        return ⟨⟨token, position⟩ :: later.lexemes, later.finish⟩
termination_by cs.length
decreasing_by
  · simp
  · exact Token.length_lt_of_read? (by assumption)

/-- The tokens of a text, or the first place where it does not go on with one. -/
def ofText (text : String) : Except UnrecognisedText Lexing := scan 0 text.toList

end Lexing

end Sentential

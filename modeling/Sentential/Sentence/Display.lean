import Sentential.Sentence
import Sentential.Text.Brackets

/-!
# The text of a sentence

`Sentence.text` writes connectives between their operands. An operand stands in parentheses
exactly when it has two or more immediate parts, whatever its connective binds; members of a set
stand bare between braces. `Sentence.outline` writes each connective before its operands with
all parentheses, and `Sentence.form` names the form of every part.
-/

namespace Sentential

namespace Sentence

mutual

/-- The text of a sentence, with each connective between its operands. -/
def text : Sentence → String
  | atom v => v.label
  | negation target => "-" ++ parenthesise target.hasMultiple target.text
  | binary connective left right =>
    parenthesise left.hasMultiple left.text ++ " " ++ connective.symbol ++ " " ++
      parenthesise right.hasMultiple right.text
  | set members => braced (memberTexts members)

/-- The texts of the members. -/
def memberTexts : List Sentence → List String
  | [] => []
  | s :: rest => s.text :: memberTexts rest

end

mutual

/-- The text of a sentence with each connective before its operands, all in parentheses. -/
def outline : Sentence → String
  | atom v => v.label
  | negation target => "(- " ++ target.outline ++ ")"
  | binary connective left right =>
    "(" ++ connective.symbol ++ " " ++ left.outline ++ " " ++ right.outline ++ ")"
  | set members => "(" ++ " ".intercalate ("set" :: memberOutlines members) ++ ")"

/-- The outlines of the members. -/
def memberOutlines : List Sentence → List String
  | [] => []
  | s :: rest => s.outline :: memberOutlines rest

end

mutual

/-- The text of a sentence in which every part is named by its form. -/
def form : Sentence → String
  | atom v => "Atom(Variable \x7b label: \"" ++ v.label ++ "\" \x7d)"
  | negation target => "Negation(" ++ target.form ++ ")"
  | binary connective left right =>
    connective.name ++ "(" ++ left.form ++ ", " ++ right.form ++ ")"
  | set members => "SentenceSet(" ++ braced (memberForms members) ++ ")"

/-- The forms of the members. -/
def memberForms : List Sentence → List String
  | [] => []
  | s :: rest => s.form :: memberForms rest

end

/-- The texts of the members are the text of each in turn. -/
theorem memberTexts_eq_map (members : List Sentence) : memberTexts members = members.map text := by
  induction members with
  | nil => rfl
  | cons s rest ih => rw [memberTexts, ih, List.map_cons]

/-- The sign of a negation stands right before its target. -/
theorem text_negation_append (target : Sentence) (after : List Char) :
    (negation target).text.toList ++ after =
      '-' :: ((parenthesise target.hasMultiple target.text).toList ++ after) := by
  rw [text]
  simp [String.toList_append]

/-- A connective stands between its operands, with a space on either side. -/
theorem text_binary_append (c : Connective) (left right : Sentence) (after : List Char) :
    (binary c left right).text.toList ++ after =
      (parenthesise left.hasMultiple left.text).toList ++ (' ' :: (c.symbol.toList ++
        (' ' :: ((parenthesise right.hasMultiple right.text).toList ++ after)))) := by
  rw [text]
  simp [String.toList_append]

/-- The members of a set stand between braces. -/
theorem text_set_append (members : List Sentence) (after : List Char) :
    (set members).text.toList ++ after =
      '{' :: ((", ".intercalate (memberTexts members)).toList ++ ('}' :: after)) := by
  rw [text, braced]
  simp [String.toList_append]

end Sentence

end Sentential

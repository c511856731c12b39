/-!
# Bracketed texts

Texts between parentheses and lists of texts between braces.
-/

namespace Sentential

/-- A text between parentheses, if they are asked for. -/
def parenthesise (asked : Bool) (text : String) : String :=
  if asked then "(" ++ text ++ ")" else text

/-- Texts separated by a comma and a space, between braces. -/
def braced (texts : List String) : String := "\x7b" ++ ", ".intercalate texts ++ "\x7d"

/-- Parentheses stand right before and after the text. -/
theorem parenthesise_true_append (text : String) (after : List Char) :
    (parenthesise true text).toList ++ after = '(' :: (text.toList ++ (')' :: after)) := by
  rw [parenthesise, if_pos rfl]
  simp [String.toList_append]

end Sentential

import Sentential.SortedSet

/-!
# Variables

A variable is an atomic unknown named by its label: a lowercase letter followed by letters,
digits and underscores, all ASCII. `Variable.ofLabel` checks a label and says what is wrong with
a text that is none. Variables are ordered by their labels.
-/

namespace Sentential

/-- The characters that may begin a label: the ASCII lowercase letters. -/
def isLabelStart (c : Char) : Bool := c.isLower

/-- The characters that may follow in a label: ASCII letters, digits and the underscore. -/
def isLabelPart (c : Char) : Bool := c.isAlphanum || c == '_'

/-- Whether a text is a label. -/
def isLabel : List Char → Bool
  | [] => false
  | c :: cs => isLabelStart c && cs.all isLabelPart

/-- What keeps a text from being a label. -/
inductive LabelError where
  | empty
  | badStart (label : String)
  | badCharacter (label : String)
  deriving DecidableEq

/-- The wording of a label error; the text is shown as it is. -/
def LabelError.message : LabelError → String
  | .empty => "variable label must not be empty"
  | .badStart label => "variable label \"" ++ label ++ "\" must start with a lowercase letter"
  | .badCharacter label =>
    "variable label \"" ++ label ++ "\" can only contain letters, numbers and _"

/-- An atomic unknown, identified by its label. -/
structure Variable where
  /-- The name, a lowercase letter followed by letters, digits and underscores. -/
  label : String
  isLabel_label : isLabel label.toList = true
  deriving DecidableEq

namespace Variable

/-- The variable of a label. A wrong start is reported before a wrong later character. -/
def ofLabel (label : String) : Except LabelError Variable :=
  if h : isLabel label.toList = true then .ok ⟨label, h⟩
  else match label.toList with
    | [] => .error .empty
    | c :: _ =>
      if isLabelStart c then .error (.badCharacter label) else .error (.badStart label)

/-- Variables are ordered by their labels, character by character. -/
instance : Ord Variable where compare v w := compare v.label w.label

/-- Variables with the same label are equal. -/
@[ext] theorem ext {v w : Variable} (h : v.label = w.label) : v = w := by
  cases v; cases w; cases h; rfl

/-- Comparing variables is comparing labels. -/
theorem compare_label (v w : Variable) : compare v w = compare v.label w.label := rfl

/-- The order of labels carries over to variables. -/
instance : Std.TransOrd Variable where
  eq_swap := by
    intro v w
    rw [compare_label, compare_label]
    exact Std.OrientedCmp.eq_swap
  isLE_trans := by
    intro u v w huv hvw
    rw [compare_label] at huv hvw ⊢
    exact Std.TransCmp.isLE_trans huv hvw

/-- Variables compare as equal only when they are. -/
instance : Std.LawfulEqOrd Variable where
  compare_self := by
    intro v
    rw [compare_label]
    exact Std.ReflCmp.compare_self
  eq_of_compare := by
    intro v w h
    rw [compare_label] at h
    exact ext (Std.LawfulEqCmp.eq_of_compare h)

/-- Exactly the labels name variables, each the variable of that label. -/
theorem ofLabel_eq_ok_iff {label : String} {v : Variable} :
    ofLabel label = .ok v ↔ v.label = label := by
  constructor
  · intro h
    rw [ofLabel] at h
    split at h
    · injection h with h
      rw [← h]
    · split at h
      · cases h
      · split at h <;> cases h
  · rintro rfl
    rw [ofLabel, dif_pos v.isLabel_label]

end Variable

end Sentential

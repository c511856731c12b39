import Sentential.Text.Blank

/-!
# Quoted text

A text between double quotes, on one line: every blank character but the space is written as an
escape. Tabs, returns and line feeds have escapes of their own, other blanks show their code
point.
-/

namespace Sentential

/-- The written form of a character in a quoted text. -/
def quotedChar (c : Char) : String :=
  if c = '\t' then "\\t"
  else if c = '\r' then "\\r"
  else if c = '\n' then "\\n"
  else if c = ' ' then " "
  else if isBlank c then "\\u\x7b" ++ String.ofList (Nat.toDigits 16 c.toNat) ++ "\x7d"
  else c.toString

/-- A text between double quotes, with escapes for its blank characters. -/
def quoted (text : String) : String :=
  "\"" ++ String.join (text.toList.map quotedChar) ++ "\""

end Sentential

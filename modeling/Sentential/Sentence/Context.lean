import Sentential.Sentence.Order

/-!
# Contexts

A context is a sentence with a hole in the place of one part, at any depth. Where the hole is
among the members of a set, the filled set is listed in structural order again, so the part that
fills it may fall together with another member.
-/

namespace Sentential

/-- A sentence with one hole. -/
inductive Context where
  | hole
  | negation (target : Context)
  | left (connective : Connective) (left : Context) (right : Sentence)
  | right (connective : Connective) (left : Sentence) (right : Context)
  | member (member : Context) (others : List Sentence)

namespace Context

/-- The sentence in whose hole another one stands. -/
def fill (part : Sentence) : Context → Sentence
  | hole => part
  | negation target => .negation (target.fill part)
  | left connective l r => .binary connective (l.fill part) r
  | right connective l r => .binary connective l (r.fill part)
  | member m others => .setOf (m.fill part :: others)

end Context

end Sentential

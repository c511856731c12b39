import Sentential.Sentence
import Sentential.Token

/-!
# The grammar of sentences

The phrases of the written language, from the loosest to the tightest:

* an expression is a disjunction, or an expression, an arrow and a disjunction;
* a disjunction is a conjunction, or a disjunction, `|` and a conjunction;
* a conjunction is a negation, or a conjunction, `^` and a negation;
* a negation is a primary phrase, or `-` and a negation;
* a primary phrase is a label, or an expression in parentheses.

So the three arrows stand on one level, and chains of one level are read from left to right. A
tree keeps the parentheses of its text; `Tree.IsA` says which phrase it is.
-/

namespace Sentential

namespace Grammar

/-- The kinds of phrases. -/
inductive Phrase where
  | expression
  | disjunction
  | conjunction
  | negation
  | primary
  deriving DecidableEq

/-- A text as the tree of its parts, with parentheses as parts of their own. -/
inductive Tree where
  | label (v : Variable)
  | grouped (inner : Tree)
  | negated (target : Tree)
  | joined (connective : Connective) (left right : Tree)
  deriving DecidableEq

namespace Tree

/-- The tokens of the text. -/
def yield : Tree → List Token
  | label v => [.label v.label]
  | grouped inner => .leftParenthesis :: inner.yield ++ [.rightParenthesis]
  | negated target => .negation :: target.yield
  | joined connective left right => left.yield ++ .connective connective :: right.yield

/-- The sentence that the text stands for, without its parentheses. -/
def sentence : Tree → Sentence
  | label v => .atom v
  | grouped inner => inner.sentence
  | negated target => .negation target.sentence
  | joined connective left right => .binary connective left.sentence right.sentence

/-- The deepest level on which an operand stands: negations, parentheses and right operands each
are one level deeper than what they belong to. -/
def nesting : Tree → Nat
  | label _ => 0
  | grouped inner => 1 + inner.nesting
  | negated target => 1 + target.nesting
  | joined _ left right => max left.nesting (1 + right.nesting)

/-- The phrases that a tree is. -/
inductive IsA : Phrase → Tree → Prop where
  | label (v : Variable) : IsA .primary (label v)
  | grouped {inner : Tree} : IsA .expression inner → IsA .primary (grouped inner)
  | ofPrimary {t : Tree} : IsA .primary t → IsA .negation t
  | negated {target : Tree} : IsA .negation target → IsA .negation (negated target)
  | ofNegation {t : Tree} : IsA .negation t → IsA .conjunction t
  | conjoined {left right : Tree} : IsA .conjunction left → IsA .negation right →
      IsA .conjunction (joined .conjunction left right)
  | ofConjunction {t : Tree} : IsA .conjunction t → IsA .disjunction t
  | disjoined {left right : Tree} : IsA .disjunction left → IsA .conjunction right →
      IsA .disjunction (joined .disjunction left right)
  | ofDisjunction {t : Tree} : IsA .disjunction t → IsA .expression t
  | arrow {connective : Connective} {left right : Tree} :
      connective ∈ [.implication, .reduction, .equivalence] →
      IsA .expression left → IsA .disjunction right →
      IsA .expression (joined connective left right)

end Tree

/-- The tokens are those of an expression. -/
def Derivable (tokens : List Token) : Prop := ∃ t : Tree, t.IsA .expression ∧ t.yield = tokens

/-- The tokens can be continued to those of an expression. -/
def Viable (tokens : List Token) : Prop := ∃ more, Derivable (tokens ++ more)

end Grammar

end Sentential

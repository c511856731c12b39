import Sentential.Assignment
import Sentential.Mendelson.Rule
import Sentential.Sentence.Display
import Sentential.Text.Quoted

/-!
# Events

What an operation has to tell beside its result: each event has a level, the area it belongs to
and a message.
-/

namespace Sentential

/-- How much an event matters. -/
inductive Level where
  | trace
  | debug
  | warn
  deriving DecidableEq

/-- The level as it is written. -/
def Level.text : Level → String
  | trace => "TRACE"
  | debug => "DEBUG"
  | warn => "WARN"

/-- Something that an operation tells. -/
inductive Event where
  /-- A text was read as tokens; the end of the text counts as one. -/
  | tokenized (text : String) (count : Nat)
  /-- A text was read as a sentence. -/
  | parsed (text : String) (sentence : Sentence)
  /-- Many assignments are about to be listed. -/
  | enumerating (size : Nat)
  /-- The assignments over a vocabulary were listed. -/
  | enumerated (count : Nat) (vocabulary : Vocabulary)
  /-- Two formulas were compared under all assignments over a vocabulary. -/
  | compared (agreeing disagreeing : Nat) (vocabulary : Vocabulary)
  /-- An assignment makes a premise true and a conclusion false. -/
  | refuted (counterexample : Assignment)
  /-- A truth table was drawn; its headings count as a row. -/
  | rendered (columns rows : Nat)
  /-- The conclusion of a problem is one of its premises. -/
  | given (conclusion : Sentence)
  /-- One step proves the conclusion of a problem. -/
  | found (rule : Mendelson.Rule) (conclusion : Sentence)
  /-- No step proves the conclusion of a problem. -/
  | notFound (conclusion : Sentence)
  deriving DecidableEq

namespace Event

/-- How much the event matters. -/
def level : Event → Level
  | tokenized .. | enumerated .. | rendered .. => .trace
  | enumerating .. => .warn
  | parsed .. | compared .. | refuted .. | given .. | found .. | notFound .. => .debug

/-- The area that the event belongs to. -/
def target : Event → String
  | tokenized .. | parsed .. => "parser"
  | enumerating .. | enumerated .. => "assignments"
  | compared .. | refuted .. => "semantics"
  | rendered .. => "display"
  | given .. | found .. | notFound .. => "proof"

/-- The message of the event. -/
def message : Event → String
  | tokenized text count => "Tokenized " ++ quoted text ++ " into " ++ toString count ++ " tokens"
  | parsed text sentence => "Parsed " ++ quoted text ++ " as " ++ sentence.text
  | enumerating size => "Enumerating 2^" ++ toString size ++ " assignments"
  | enumerated count vocabulary =>
    "Enumerated " ++ toString count ++ " assignments over " ++ vocabulary.text
  | compared agreeing disagreeing vocabulary =>
    "Formulas agree on " ++ toString agreeing ++ " and disagree on " ++ toString disagreeing ++
      " assignments over " ++ vocabulary.text
  | refuted counterexample => "Entailment fails under " ++ counterexample.text
  | rendered columns rows =>
    "Rendered " ++ toString columns ++ " columns and " ++ toString rows ++ " rows"
  | given conclusion => "Conclusion " ++ conclusion.text ++ " is a premise"
  | found rule conclusion =>
    "Found " ++ rule.name ++ "(" ++ ", ".intercalate (rule.arguments.map Sentence.form) ++
      ") for " ++ conclusion.text
  | notFound conclusion => "No single step proof of " ++ conclusion.text

end Event

end Sentential

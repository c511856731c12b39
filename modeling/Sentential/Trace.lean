import Sentential.Formula.Entailment
import Sentential.Mendelson.Problem
import Sentential.Sentence.Parser
import Sentential.TruthTable.Grid

/-!
# Traces

The events that each operation tells, in the order in which they happen. An operation that fails
has told what came before its failure.
-/

namespace Sentential

/-- The events of listing the assignments over a vocabulary. -/
def Vocabulary.assignmentsTrace (v : Vocabulary) : List Event :=
  (v.assignmentsAccount : Account Empty (List Assignment)).events

/-- The events of reading a text as a sentence. -/
def Sentence.parseTrace (text : String) : List Event := (Sentence.parseAccount text).events

namespace Formula

/-- The events of comparing two formulas. -/
def agreementTrace (left right : Formula) : List Event := (agreementAccount left right).events

/-- The events of deciding whether a premise entails a conclusion. -/
def entailsTrace (premise conclusion : Formula) : List Event :=
  (entailsAccount premise conclusion).events

end Formula

/-- The events of drawing a truth table. -/
def TruthTable.textTrace (t : TruthTable) : List Event := t.textAccount.events

/-- The events of searching for a proof. -/
def Mendelson.Problem.proveTrace (p : Problem) : List Event := p.proveAccount.events

/-- After listing the assignments, what comes next is told. -/
theorem Vocabulary.events_bind_assignmentsAccount {ε α : Type} (v : Vocabulary)
    (next : List Assignment → Account ε α) :
    (v.assignmentsAccount >>= next).events =
      v.assignmentsTrace ++ (next v.assignments).events := by
  -- What listing tells does not depend on how what comes next may fail.
  have htrace : (v.assignmentsAccount : Account ε (List Assignment)).events =
      v.assignmentsTrace := by
    rw [assignmentsTrace, assignmentsAccount, assignmentsAccount]
    split <;> rfl
  rw [Account.events_bind, v.result_assignmentsAccount, htrace]

end Sentential

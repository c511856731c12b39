import Sentential.Grammar
import Sentential.Grammar.Pending
import Sentential.Mendelson.Derivation
import Sentential.Sentence.Context
import Sentential.Sentence.Nesting
import Sentential.Sentence.Parser.Cursor
import Sentential.Sentence.Truth
import Sentential.Token.Layout
import Sentential.Trace
import Sentential.Proofs.Grammar.Formed
import Sentential.Proofs.Grammar.Rebuilding
import Sentential.Proofs.Parser.Reading
import Sentential.Proofs.Token.Scanning
import Sentential.Proofs.Parser.Acceptance
import Sentential.Proofs.Sentence.Written
import Sentential.Proofs.Sentence.Reparsing
import Sentential.Proofs.Sentence.Chain
import Sentential.Proofs.Sentence.RoundTrip
import Sentential.Proofs.Sentence.Semantics
import Sentential.Proofs.Formula.Entailment
import Sentential.Proofs.Mendelson.Search
import Sentential.Proofs.Mendelson.Soundness
import Sentential.Proofs.Sentence.Height
import Sentential.Proofs.Grammar.Scan
import Sentential.Proofs.Parser.Diagnosis
import Sentential.Proofs.Parser.Descent
import Sentential.Proofs.Grammar.Prefixes
import Sentential.Proofs.Sentence.Errors
import Sentential.Proofs.Formula.Agreement
import Sentential.Proofs.Sentence.Readability
import Sentential.Proofs.TruthTable.Grid
import Sentential.Proofs.Formula.Counterexample
import Sentential.Proofs.Formula.Vocabularies
import Sentential.Proofs.TruthTable.Rendering
import Sentential.Proofs.Token.Decomposition
import Sentential.Proofs.Token.Spacing
import Sentential.Proofs.Sentence.Spacing
import Sentential.Proofs.Mendelson.Fragment
import Sentential.Proofs.Formula.Equivalence
import Sentential.Proofs.Assignment.Counting
import Sentential.Proofs.Assignment.Restriction
import Sentential.Proofs.Formula.Widening
import Sentential.Proofs.Formula.Deduction
import Sentential.Proofs.TruthTable.Comparison
import Sentential.Proofs.Sentence.Order
import Sentential.Proofs.TruthTable.Columns
import Sentential.Proofs.TruthTable.Geometry
import Sentential.Proofs.Formula.Conjunction
import Sentential.Proofs.Formula.Symmetry
import Sentential.Proofs.Mendelson.Outcome
import Sentential.Proofs.Assignment.Order
import Sentential.Proofs.SortedSet
import Sentential.Proofs.Assignment.Overlay
import Sentential.Proofs.Assignment.Union
import Sentential.Proofs.Sentence.Labels
import Sentential.Proofs.Parser.Record
import Sentential.Proofs.Parser.Progress

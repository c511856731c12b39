import Sentential.Mendelson.Rule

/-!
# Derivations

A derivation applies rules one after another. Axioms may be used for any sentences; an
implication may be eliminated when it and its antecedent are both known, as premises or from
earlier steps.
-/

namespace Sentential

namespace Mendelson

/-- Whether a rule may be applied when some sentences are known. -/
def Rule.IsAllowed (known : List Sentence) : Rule → Prop
  | implicationElimination (.implication antecedent consequent) =>
    .implication antecedent consequent ∈ known ∧ antecedent ∈ known
  | implicationElimination _ => False
  | _ => True

/-- The rules can be applied in this order, and with the premises give the known sentences, the
last one first. -/
inductive Derivation (premises : List Sentence) : List Rule → List Sentence → Prop where
  | start : Derivation premises [] premises
  | step {rules : List Rule} {known : List Sentence} {rule : Rule} {s : Sentence} :
      Derivation premises rules known → rule.IsAllowed known → rule.derived? = some s →
      Derivation premises (rules ++ [rule]) (s :: known)

end Mendelson

end Sentential

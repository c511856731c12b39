import Sentential.Proofs.Parser.Diagnosis
import Sentential.Proofs.Parser.Reading
import Sentential.Token.Layout

/-!
# The descent follows the scan

A reading of an expression and the scan with pending limits go over the same lexemes. The levels
that the reading has left and the limits that are pending add up, and both find the same error
first, or the scan goes on after the expression with the limits from before it.
-/

namespace Sentential

namespace Parser

open Grammar Pending

/-- All labels among some lexemes are valid. -/
def AreWords (lexemes : List Lexeme) : Prop := ∀ lexeme ∈ lexemes, lexeme.token.IsWord

/-- What follows a tree consists of words too. -/
theorem AreWords.of_beginsWith {t : Tree} {lexemes rest : List Lexeme} (hw : AreWords lexemes)
    (h : BeginsWith t lexemes rest) : AreWords rest := by
  obtain ⟨first, rfl, -⟩ := h
  intro lexeme hm
  exact hw lexeme (List.mem_append_right first hm)

/-- The first error where something is read within a scan: that of the reading, or else the first
after what was read. -/
def errorAfter (room finish : Nat) (limits : List Limit) {lexemes : List Lexeme} :
    Except ParseError (Parsed lexemes) → Option ParseError
  | .error e => some e
  | .ok p => firstError? room finish ⟨.operator, limits⟩ p.rest

/-- With one more limit for the power that is to be exceeded, the scan finds what the reader
finds. -/
def Follows (room finish : Nat) (limits : List Limit) (reader : ExpressionReader) : Prop :=
  ∀ (limit : Limit) {lexemes : List Lexeme}, AreWords lexemes →
    firstError? room finish ⟨.operand, limit :: limits⟩ lexemes =
      errorAfter room finish (limit :: limits) (reader limit.value lexemes)

variable {room finish levels : Nat} {limits : List Limit} {inner : ExpressionReader}

/-- A negation is scanned with the limit of its sign pending. -/
theorem Follows.negation (hf : Follows room finish limits inner) (hs : IsSound levels inner)
    (hroom : limits.length ≤ room) {start : Nat} {rest : List Lexeme} (hw : AreWords rest) :
    firstError? room finish ⟨.operand, limits⟩ (⟨.negation, start⟩ :: rest) =
      errorAfter room finish limits (operand inner finish (⟨.negation, start⟩ :: rest)) := by
  have hdeep : ¬State.IsTooDeep room ⟨.operand, limits⟩ := fun h ↦ Nat.not_lt.mpr hroom h.2
  rw [firstError?_of_step? hdeep rfl, operand_negation]
  refine (hf (.power Token.negation.bindingPower) hw).trans ?_
  change errorAfter _ _ _ (inner Token.negation.bindingPower rest) = _
  cases ht : inner Token.negation.bindingPower rest with
  | error e => rfl
  | ok target => exact firstError?_operator_cons (hs ht).1 limits

/-- A group is scanned with its parenthesis pending. -/
theorem Follows.group (hf : Follows room finish limits inner) (hs : IsSound levels inner)
    (hroom : limits.length ≤ room) {start : Nat} {rest : List Lexeme} (hw : AreWords rest) :
    firstError? room finish ⟨.operand, limits⟩ (⟨.leftParenthesis, start⟩ :: rest) =
      errorAfter room finish limits (operand inner finish (⟨.leftParenthesis, start⟩ :: rest)) := by
  have hdeep : ¬State.IsTooDeep room ⟨.operand, limits⟩ := fun h ↦ Nat.not_lt.mpr hroom h.2
  rw [firstError?_of_step? hdeep rfl]
  refine (hf .group hw).trans ?_
  change errorAfter _ _ _ (inner 0 rest) = _
  cases hc : inner 0 rest with
  | error e =>
    rw [operand_group_of_error hc]
    rfl
  | ok content =>
    rcases operand_group_cases start hc with ⟨stop, p, hp, -, hr⟩ | ⟨hne, he⟩
    · rw [hp]
      change firstError? room finish _ content.rest = firstError? room finish _ p.rest
      rw [hr, firstError?_of_step? (not_isTooDeep_operator room _) rfl]
    · rw [he]
      change firstError? room finish _ content.rest = some _
      have hnext : nextPower content.rest ≤ 0 := (hs hc).1
      have hnot : ¬State.Admits ⟨.operator, .group :: limits⟩ (next content.rest) := by
        rw [admits_operator_iff_of_le hnext]
        rintro (⟨hclose, -⟩ | ⟨-, hout⟩)
        · obtain ⟨stop, after, hr⟩ := next_eq_some_iff.mp hclose
          exact hne stop after hr
        · exact hout List.mem_cons_self
      rw [firstError?_operator_of_not_admits hnext hnot, if_pos List.mem_cons_self]

/-- An operand is scanned as it is read. -/
theorem Follows.operand (hf : Follows room finish limits inner) (hs : IsSound levels inner)
    (hroom : limits.length ≤ room) {lexemes : List Lexeme} (hw : AreWords lexemes) :
    firstError? room finish ⟨.operand, limits⟩ lexemes =
      errorAfter room finish limits (operand inner finish lexemes) := by
  have hdeep : ¬State.IsTooDeep room ⟨.operand, limits⟩ := fun h ↦ Nat.not_lt.mpr hroom h.2
  match lexemes with
  | [] => exact firstError?_of_not_admits hdeep (fun h ↦ nomatch h.1) rfl
  | ⟨.label text, start⟩ :: rest =>
    let v : Variable := ⟨text, hw _ List.mem_cons_self⟩
    rw [firstError?_of_step? hdeep rfl]
    exact congrArg (errorAfter room finish limits) (operand_label v start rest).symm
  | ⟨.negation, start⟩ :: rest =>
    exact hf.negation hs hroom fun lexeme hm ↦ hw lexeme (List.mem_cons_of_mem _ hm)
  | ⟨.leftParenthesis, start⟩ :: rest =>
    exact hf.group hs hroom fun lexeme hm ↦ hw lexeme (List.mem_cons_of_mem _ hm)
  | ⟨.connective c, start⟩ :: rest =>
    exact firstError?_of_not_admits hdeep (fun h ↦ nomatch h) rfl
  | ⟨.rightParenthesis, start⟩ :: rest =>
    exact firstError?_of_not_admits hdeep (fun h ↦ nomatch h) rfl

/-- Operators are scanned as they are read on after a left operand. -/
theorem Follows.operators {limit : Limit} (hf : Follows room finish (limit :: limits) inner)
    (hs : IsSound levels inner) {lexemes : List Lexeme} {left : Parsed lexemes}
    (hw : AreWords left.rest) :
    firstError? room finish ⟨.operator, limit :: limits⟩ left.rest =
      errorAfter room finish (limit :: limits) (operators inner limit.value left) := by
  -- every connective that is read leaves fewer lexemes
  induction hm : left.rest.length using Nat.strongRecOn generalizing left with
  | ind m ih =>
    rcases operators_cases limit.value left with hp | ⟨c, start, rest, hr, hp⟩ |
      ⟨token, start, rest, hr, hp, ht⟩
    · rw [operators_of_le hp]
      rfl
    · have hrest : AreWords rest := fun lexeme hm ↦ hw lexeme (by
        rw [hr]
        exact List.mem_cons_of_mem _ hm)
      have hkept : (limit :: limits).dropWhile (fun l ↦ decide (c.bindingPower ≤ l.value)) =
          limit :: limits := List.dropWhile_cons_of_neg (by simpa using hp)
      have hstep : step? ⟨.operator, limit :: limits⟩ (.connective c) =
          some ⟨.operand, .power c.bindingPower :: limit :: limits⟩ := by
        rw [step?_operator_connective, hkept]
      rw [operators_connective hr hp]
      have hscan : firstError? room finish ⟨.operator, limit :: limits⟩ left.rest =
          errorAfter room finish (.power c.bindingPower :: limit :: limits)
            (inner c.bindingPower rest) := by
        rw [hr, firstError?_of_step? (not_isTooDeep_operator room _) hstep]
        exact hf (.power c.bindingPower) hrest
      rw [hscan]
      cases hi : inner c.bindingPower rest with
      | error e => rfl
      | ok right =>
        obtain ⟨hnext, t, hread, -⟩ := hs hi
        have hshorter : (left.join hr right).rest.length < m := by
          rw [← hm]
          exact left.join_rest_lt hr right
        refine (firstError?_operator_cons hnext (limit :: limits)).trans ?_
        exact ih _ hshorter (hrest.of_beginsWith hread.beginsWith) rfl
    · have hbinds : token.isLabelOrNegation = true := by
        rcases Token.bindingPower_pos_iff.mp (Nat.zero_lt_of_lt hp) with h | ⟨c, hc⟩
        · exact h
        · exact absurd hc (ht c)
      rw [operators_unexpected hr hp ht, hr]
      exact firstError?_operator_of_isLabelOrNegation hbinds start rest

/-- An expression is scanned as it is read, where levels and limits add up to the room. -/
theorem follows_expression (finish : Nat) (hroom : levels + limits.length = room) :
    Follows room finish limits (expression finish levels) := by
  induction levels generalizing limits with
  | zero =>
    intro limit lexemes _
    have hdeep : State.IsTooDeep room ⟨.operand, limit :: limits⟩ := by
      refine ⟨rfl, ?_⟩
      rw [List.length_cons]
      omega
    exact firstError?_of_error? (State.error?_eq_tooDeep_iff.mpr ⟨hdeep, rfl, rfl⟩)
  | succ levels ih =>
    intro limit lexemes hw
    have hf : Follows room finish (limit :: limits) (expression finish levels) := by
      apply ih
      rw [List.length_cons]
      omega
    have hs : IsSound levels (expression finish levels) := isSound_expression finish levels
    have hlength : (limit :: limits).length ≤ room := by
      rw [List.length_cons]
      omega
    rw [hf.operand hs hlength hw]
    cases ho : Parser.operand (expression finish levels) finish lexemes with
    | error e =>
      rw [expression_of_operand_error ho]
    | ok left =>
      obtain ⟨t, hread, -⟩ := hs.operand limit.value ho
      rw [expression_of_operand ho]
      exact hf.operators hs (hw.of_beginsWith hread.beginsWith)

end Parser

end Sentential

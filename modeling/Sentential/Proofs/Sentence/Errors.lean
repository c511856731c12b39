import Sentential.Proofs.Grammar.Prefixes

/-!
# Where a text is refused

A text of tokens is refused at the first of them after which it cannot be continued to an
expression, or at the first operand that stands too deep, whichever comes first. At one place depth
counts before anything else. What is asked for in place of an unexpected token depends on the token
before it, on the unexpected token itself and on the parentheses that are open.
-/

namespace Sentential

open Grammar Pending

namespace Lexing

/-- The tokens of a text. -/
def tokens (l : Lexing) : List Token := l.lexemes.map Lexeme.token

/-- The tokens before a place. -/
def before (l : Lexing) (i : Nat) : List Token := (l.lexemes.take i).map Lexeme.token

/-- The token at a place, which is the end of the text if there is none. -/
def tokenAt? (l : Lexing) (i : Nat) : Option Token := l.lexemes[i]?.map Lexeme.token

/-- The byte offset of a place. -/
def positionAt (l : Lexing) (i : Nat) : Nat := (l.lexemes[i]?.map Lexeme.position).getD l.finish

variable {l : Lexing}

/-- What comes next at a place is its token. -/
theorem next_drop (i : Nat) : Parser.next (l.lexemes.drop i) = l.tokenAt? i := by
  rw [Parser.next, List.head?_drop, tokenAt?]

/-- The position of what comes next at a place is its position. -/
theorem position_drop (i : Nat) : Parser.position l.finish (l.lexemes.drop i) = l.positionAt i := by
  rw [Parser.position, List.head?_drop, positionAt]

/-- All tokens stand before the end. -/
theorem before_length (l : Lexing) : l.before l.lexemes.length = l.tokens := by
  rw [before, List.take_length, tokens]

/-- There is no token at the end. -/
theorem tokenAt?_length (l : Lexing) : l.tokenAt? l.lexemes.length = none := by
  rw [tokenAt?, List.getElem?_eq_none (Nat.le_refl _)]
  rfl

/-- One more token stands before the next place. -/
theorem exists_before_succ {i : Nat} (h : i < l.lexemes.length) :
    ∃ token, l.tokenAt? i = some token ∧ l.before (i + 1) = l.before i ++ [token] := by
  refine ⟨l.lexemes[i].token, ?_, ?_⟩
  · rw [tokenAt?, List.getElem?_eq_getElem h]
    rfl
  · rw [before, before, List.take_succ_eq_append_getElem h, List.map_append]
    rfl

/-- Before an earlier place there is a part of the tokens. -/
theorem take_before {i j : Nat} (h : j ≤ i) : (l.before i).take j = l.before j := by
  rw [before, before, ← List.map_take, List.take_take, Nat.min_eq_left h]

/-- The tokens before a place are words, if all are. -/
theorem isWord_before (hw : Parser.AreWords l.lexemes) (i : Nat) :
    ∀ token ∈ l.before i, token.IsWord := by
  intro token hm
  obtain ⟨lexeme, hl, rfl⟩ := List.mem_map.mp hm
  exact hw lexeme (List.mem_of_mem_take hl)

end Lexing

/-! ### What is asked for -/

/-- How a message names what is asked for between the tokens before a place and the token there: an
operand at the beginning and after an operator, a negation or an opening parenthesis; elsewhere an
operator in place of a label or a negation, or else the parenthesis that is to be closed, or else
the end. -/
def askedFor (before : List Token) (found : Option Token) : String :=
  if ∀ last ∈ before.getLast?, last.opensOperand = true then "variable, \"-\" or \"(\""
  else if found.any Token.isLabelOrNegation then "binary operator"
  else if before.count .rightParenthesis < before.count .leftParenthesis then "\")\""
  else "end of input"

/-- What a state asks for depends on the tokens before it as the messages say. -/
theorem Pending.description_expectation {before : List Token} {state : State}
    (h : start.run? before = some state) (found : Option Token) :
    (state.expectation found).description = askedFor before found := by
  have hplace := place_of_run? h
  have hcount := count_group_of_run? h
  have hstart : start.limits.count .group = 0 := rfl
  have hgroup : .group ∈ state.limits ↔
      before.count .rightParenthesis < before.count .leftParenthesis := by
    rw [← List.count_pos_iff]
    omega
  simp only [askedFor, ← hplace, ← hgroup, State.expectation]
  cases state.place with
  | operand => rfl
  | operator =>
    simp only [reduceCtorEq, if_false]
    split
    · rfl
    · split <;> rfl

/-- No state is too deep where an operand is due below at most 257 limits. -/
theorem Pending.forall_not_isTooDeep_iff {before : List Token} :
    (∀ state, start.run? before = some state → ¬state.IsTooDeep (maxNesting + 1)) ↔
      ∀ limits, start.run? before = some ⟨.operand, limits⟩ → limits.length ≤ 257 := by
  constructor
  · intro hall limits hrun
    exact Nat.le_of_not_lt fun hlt ↦ hall _ hrun ⟨rfl, hlt⟩
  · rintro hall state hrun ⟨hplace, hdeep⟩
    apply Nat.not_le_of_lt hdeep
    apply hall
    rw [hrun, ← hplace]

/-! ### The error of a lexing -/

namespace Parser

/-- Reading a sentence fails with the first error of the scan. -/
theorem sentence_eq_error_iff {lexing : Lexing} (hw : AreWords lexing.lexemes)
    (hne : lexing.lexemes ≠ []) {e : ParseError} :
    sentence lexing = .error e ↔
      firstError? (maxNesting + 1) lexing.finish start lexing.lexemes = some e := by
  have hempty : lexing.lexemes.isEmpty = false := List.isEmpty_eq_false_iff.mpr hne
  rw [firstError?_start _ _ hw, sentence, hempty]
  cases hp : expression lexing.finish (maxNesting + 1) 0 lexing.lexemes with
  | error e' => simp [errorAfter, bind, Except.bind]
  | ok p =>
    change (if p.rest.isEmpty then Except.ok p.sentence else _) = _ ↔ errorAfter _ _ _ _ = _
    obtain ⟨hnext, -⟩ := isSound_expression lexing.finish _ hp
    by_cases hrest : p.rest = []
    · have hnone : firstError? (maxNesting + 1) lexing.finish ⟨.operator, [.power 0]⟩ p.rest =
          none := by
        rw [hrest]
        rfl
      rw [errorAfter, hnone, hrest]
      simp
    · have hnot := not_admits_of_nextPower hnext hrest
      rw [errorAfter, firstError?_operator_of_not_admits hnext hnot,
        List.isEmpty_eq_false_iff.mpr hrest]
      simp

end Parser

/-! ### The error of a text -/

namespace Sentence

open Sentential.Parser

variable {text : String} {lexing : Lexing}

/-- The scan is at a place of a text with no operand before it that stands too deep. -/
def IsReached (lexing : Lexing) (i : Nat) (state : State) : Prop :=
  start.run? (lexing.before i) = some state ∧
    ∀ j < i, ∀ earlier, start.run? (lexing.before j) = some earlier →
      ¬earlier.IsTooDeep (maxNesting + 1)

/-- Reaching a place is reaching it over the tokens before it. -/
theorem isReached_iff {i : Nat} {state : State} (hi : i ≤ lexing.lexemes.length) :
    IsReached lexing i state ↔ start.Reaches (maxNesting + 1) (lexing.before i) state := by
  have hlength : (lexing.before i).length = i := by
    rw [Lexing.before, List.length_map, List.length_take, Nat.min_eq_left hi]
  rw [IsReached, State.Reaches, hlength]
  apply and_congr_right
  intro _
  constructor
  · intro h j hj earlier he
    rw [Lexing.take_before (Nat.le_of_lt hj)] at he
    exact h j hj earlier he
  · intro h j hj earlier he
    rw [← Lexing.take_before (Nat.le_of_lt hj)] at he
    exact h j hj earlier he

/-- A text with tokens is refused with the error of the first place that has one. -/
theorem parse_eq_error_iff (h : Lexing.ofText text = .ok lexing) (hne : lexing.lexemes ≠ [])
    {e : ParseError} :
    parse text = .error e ↔
      ∃ i ≤ lexing.lexemes.length, ∃ state, IsReached lexing i state ∧
        state.error? (maxNesting + 1) lexing.finish (lexing.lexemes.drop i) = some e := by
  have hparse : parse text = Parser.sentence lexing := by rw [parse_eq, h]
  rw [hparse, sentence_eq_error_iff (Lexing.isWord_of_scan h) hne, firstError?_eq_some_iff]
  constructor
  · rintro ⟨i, hi, state, hreach, he⟩
    exact ⟨i, hi, state, (isReached_iff hi).mpr hreach, he⟩
  · rintro ⟨i, hi, state, hreach, he⟩
    exact ⟨i, hi, state, (isReached_iff hi).mp hreach, he⟩

/-- The tokens before a place can be continued exactly if the scan runs over them. -/
theorem viable_before_iff (h : Lexing.ofText text = .ok lexing) (i : Nat) :
    Viable (lexing.before i) ↔ ∃ state, start.run? (lexing.before i) = some state :=
  viable_iff (Lexing.isWord_before (Lexing.isWord_of_scan h) i)

/-- A text is continued over a token exactly if the token may stand where it does. -/
theorem viable_before_succ_iff (h : Lexing.ofText text = .ok lexing) {i : Nat} {state : State}
    (hi : i < lexing.lexemes.length) (hrun : start.run? (lexing.before i) = some state) :
    Viable (lexing.before (i + 1)) ↔ state.Admits (lexing.tokenAt? i) := by
  obtain ⟨token, ht, hbefore⟩ := Lexing.exists_before_succ hi
  rw [viable_before_iff h, ht, hbefore, State.run?_concat, hrun, Option.bind_some,
    ← Option.isSome_iff_exists]
  rfl

/-- A text is that of an expression exactly if its end may stand where it does. -/
theorem derivable_tokens_iff (h : Lexing.ofText text = .ok lexing) {state : State}
    (hrun : start.run? (lexing.before lexing.lexemes.length) = some state) :
    Derivable lexing.tokens ↔ state.Admits (lexing.tokenAt? lexing.lexemes.length) := by
  have hw := Lexing.isWord_before (Lexing.isWord_of_scan h) lexing.lexemes.length
  rw [← Lexing.before_length, derivable_iff hw, Lexing.tokenAt?_length]
  constructor
  · rintro ⟨later, hlater, hcomplete⟩
    obtain rfl : state = later := Option.some.inj (hrun.symm.trans hlater)
    exact hcomplete
  · intro hcomplete
    exact ⟨state, hrun, hcomplete⟩

/-- An unexpected token is the first after which the text cannot be continued. -/
theorem parse_unexpected (h : Lexing.ofText text = .ok lexing) (hne : lexing.lexemes ≠ []) :
    (∀ expected found position, parse text = .error (.unexpected expected found position) →
      ∃ i ≤ lexing.lexemes.length,
        found = lexing.tokenAt? i ∧ position = lexing.positionAt i ∧
        Viable (lexing.before i) ∧
        (i < lexing.lexemes.length → ¬Viable (lexing.before (i + 1))) ∧
        (i = lexing.lexemes.length → ¬Derivable lexing.tokens) ∧
        expected.description = askedFor (lexing.before i) found) ∧
    (¬Derivable lexing.tokens →
      (∃ expected found position, parse text = .error (.unexpected expected found position)) ∨
      ∃ position, parse text = .error (.tooDeep 256 position)) := by
  constructor
  · intro expected found position hp
    obtain ⟨i, hi, state, ⟨hrun, -⟩, he⟩ := (parse_eq_error_iff h hne).mp hp
    rw [State.error?_eq_unexpected_iff, Lexing.next_drop, Lexing.position_drop] at he
    obtain ⟨-, hadmits, rfl, rfl, rfl⟩ := he
    refine ⟨i, hi, rfl, rfl, (viable_before_iff h i).mpr ⟨state, hrun⟩, fun hlt ↦ ?_, ?_,
      description_expectation hrun _⟩
    · rw [viable_before_succ_iff h hlt hrun]
      exact hadmits
    · rintro rfl
      rw [derivable_tokens_iff h hrun]
      exact hadmits
  · intro hnot
    cases hp : parse text with
    | ok s =>
      obtain ⟨lexing', hl, hs⟩ := parse_eq_ok_iff.mp hp
      obtain rfl : lexing = lexing' := Except.ok.inj (h.symm.trans hl)
      obtain ⟨t, ht, hy, -⟩ := Parser.sentence_eq_ok_iff.mp hs
      exact absurd ⟨t, ht, hy⟩ hnot
    | error e =>
      obtain ⟨i, -, state, -, he⟩ := (parse_eq_error_iff h hne).mp hp
      rcases State.error?_cases he with rfl | rfl
      · exact .inr ⟨_, rfl⟩
      · exact .inl ⟨_, _, _, rfl⟩

private def closedTwice : Lexing :=
  ⟨[⟨.leftParenthesis, 0⟩, ⟨.label "a", 1⟩, ⟨.rightParenthesis, 2⟩, ⟨.rightParenthesis, 3⟩], 4⟩

/-- A parenthesis that closes nothing is unexpected, and the end is asked for. -/
theorem parse_unexpected_closing :
    Lexing.ofText "(a))" = .ok closedTwice ∧ closedTwice.lexemes ≠ [] ∧
    parse "(a))" = .error (.unexpected .finish (some .rightParenthesis) 3) ∧
    Viable (closedTwice.before 3) ∧ ¬Viable (closedTwice.before 4) ∧
    Expectation.finish.description =
      askedFor (closedTwice.before 3) (some .rightParenthesis) := by
  have hopen : Token.read? ['(', 'a', ')', ')'] = some (.leftParenthesis, ['a', ')', ')']) := rfl
  have hlabel : Token.read? ['a', ')', ')'] = some (.label "a", [')', ')']) := rfl
  have hclose : Token.read? [')', ')'] = some (.rightParenthesis, [')']) := rfl
  have hagain : Token.read? [')'] = some (.rightParenthesis, []) := rfl
  have hl : Lexing.ofText "(a))" = .ok closedTwice := by
    change Lexing.scan 0 ['(', 'a', ')', ')'] = _
    rw [Lexing.scan_of_read? rfl hopen, Lexing.scan_of_read? rfl hlabel,
      Lexing.scan_of_read? rfl hclose, Lexing.scan_of_read? rfl hagain, Lexing.scan_nil]
    rfl
  have hne : closedTwice.lexemes ≠ [] := List.cons_ne_nil _ _
  have hp : parse "(a))" = .error (.unexpected .finish (some .rightParenthesis) 3) := by
    have hparse : parse "(a))" = Parser.sentence closedTwice := by rw [parse_eq, hl]
    rw [hparse, sentence_eq_error_iff (Lexing.isWord_of_scan hl) hne]
    rfl
  have hplace : ∀ i ≤ 4, 3 = closedTwice.positionAt i → i = 3 := by decide
  obtain ⟨i, hi, -, hposition, hviable, hnot, -, hasked⟩ := (parse_unexpected hl hne).1 _ _ _ hp
  obtain rfl := hplace i hi hposition
  exact ⟨hl, hne, hp, hviable, hnot (by decide), hasked⟩

/-- A text is refused for its depth at the first operand below more than 257 pending limits, if no
token before it is unexpected. -/
theorem parse_tooDeep (h : Lexing.ofText text = .ok lexing) (hne : lexing.lexemes ≠ []) :
    (∀ i, Viable (lexing.before i) ↔ ∃ state, Pending.run? (lexing.before i) = some state) ∧
    (∀ limit position, parse text = .error (.tooDeep limit position) ↔
      limit = 256 ∧ ∃ i ≤ lexing.lexemes.length, ∃ limits,
        Pending.run? (lexing.before i) = some ⟨.operand, limits⟩ ∧ 257 < limits.length ∧
        (∀ j < i, ∀ earlier, Pending.run? (lexing.before j) = some ⟨.operand, earlier⟩ →
          earlier.length ≤ 257) ∧
        position = lexing.positionAt i) ∧
    (∀ i < lexing.lexemes.length, Viable (lexing.before i) → ¬Viable (lexing.before (i + 1)) →
      (∀ j ≤ i, ∀ earlier, Pending.run? (lexing.before j) = some ⟨.operand, earlier⟩ →
        earlier.length ≤ 257) →
      ∃ expected, parse text =
        .error (.unexpected expected (lexing.tokenAt? i) (lexing.positionAt i))) := by
  refine ⟨viable_before_iff h, fun limit position ↦ ?_, fun i hi hviable hnot hroom ↦ ?_⟩
  · rw [parse_eq_error_iff h hne]
    constructor
    · rintro ⟨i, hi, state, ⟨hrun, hroom⟩, he⟩
      rw [State.error?_eq_tooDeep_iff, Lexing.position_drop] at he
      obtain ⟨⟨hplace, hdeep⟩, rfl, rfl⟩ := he
      refine ⟨rfl, i, hi, state.limits, ?_, hdeep, fun j hj ↦ ?_, rfl⟩
      · rw [← hplace]
        exact hrun
      · exact forall_not_isTooDeep_iff.mp (hroom j hj)
    · rintro ⟨rfl, i, hi, limits, hrun, hdeep, hroom, rfl⟩
      refine ⟨i, hi, ⟨.operand, limits⟩, ⟨hrun, fun j hj ↦ ?_⟩, ?_⟩
      · exact forall_not_isTooDeep_iff.mpr (hroom j hj)
      · rw [State.error?_eq_tooDeep_iff, Lexing.position_drop]
        exact ⟨⟨rfl, hdeep⟩, rfl, rfl⟩
  · obtain ⟨state, hrun⟩ := (viable_before_iff h i).mp hviable
    rw [viable_before_succ_iff h hi hrun] at hnot
    refine ⟨state.expectation (lexing.tokenAt? i), (parse_eq_error_iff h hne).mpr
      ⟨i, Nat.le_of_lt hi, state, ⟨hrun, fun j hj ↦ ?_⟩, ?_⟩⟩
    · exact forall_not_isTooDeep_iff.mpr (hroom j (Nat.le_of_lt hj))
    · rw [State.error?_eq_unexpected_iff, Lexing.next_drop, Lexing.position_drop]
      exact ⟨forall_not_isTooDeep_iff.mpr (hroom i (Nat.le_refl i)) state hrun, hnot, rfl, rfl, rfl⟩

private theorem scan_signs (position n : Nat) :
    ∃ lexemes, Lexing.scan position (List.replicate n '-') = .ok ⟨lexemes, position + n⟩ ∧
      lexemes.map Lexeme.token = List.replicate n .negation := by
  induction n generalizing position with
  | zero => exact ⟨[], Lexing.scan_nil position, rfl⟩
  | succ n ih =>
    obtain ⟨lexemes, hscan, htokens⟩ := ih (position + 1)
    have hread : Token.read? ('-' :: List.replicate n '-') =
        some (.negation, List.replicate n '-') := rfl
    have hone : utf8Length Token.negation.spelling.toList = 1 := by decide
    refine ⟨⟨.negation, position⟩ :: lexemes, ?_, by rw [List.map_cons, htokens]; rfl⟩
    rw [List.replicate_succ, Lexing.scan_of_read? (by decide) hread, hone, hscan, Nat.add_assoc,
      Nat.add_comm 1 n]
    rfl

private theorem run?_signs (limits : List Limit) (n : Nat) :
    ∃ later, State.run? ⟨.operand, limits⟩ (List.replicate n .negation) =
      some ⟨.operand, later⟩ ∧ later.length = limits.length + n := by
  induction n generalizing limits with
  | zero => exact ⟨limits, rfl, rfl⟩
  | succ n ih =>
    obtain ⟨later, hrun, hlength⟩ := ih (.power Token.negation.bindingPower :: limits)
    refine ⟨later, hrun, ?_⟩
    rw [hlength, List.length_cons]
    omega

/-- 257 negations are refused for their depth at the end, where an operand is missing as well. -/
theorem parse_tooDeep_signs :
    ∃ lexing, Lexing.ofText (String.ofList (List.replicate 257 '-')) = .ok lexing ∧
      lexing.lexemes ≠ [] ∧ ¬Derivable lexing.tokens ∧
      parse (String.ofList (List.replicate 257 '-')) = .error (.tooDeep 256 257) := by
  obtain ⟨lexemes, hscan, htokens⟩ := scan_signs 0 257
  have hl : Lexing.ofText (String.ofList (List.replicate 257 '-')) = .ok ⟨lexemes, 257⟩ := by
    rw [Lexing.ofText, String.toList_ofList, hscan]
  have hlength : lexemes.length = 257 := by
    rw [← List.length_map Lexeme.token, htokens, List.length_replicate]
  have hne : lexemes ≠ [] := List.ne_nil_of_length_pos (by omega)
  have hbefore (j : Nat) :
      Lexing.before ⟨lexemes, 257⟩ j = List.replicate (min j 257) .negation := by
    rw [Lexing.before, List.map_take, htokens, List.take_replicate]
  have hruns (j : Nat) := run?_signs [.power 0] (min j 257)
  obtain ⟨limits, hrun, hlimits⟩ := hruns 257
  have hwhole : start.run? (Lexing.before ⟨lexemes, 257⟩ lexemes.length) =
      some ⟨.operand, limits⟩ := by
    rw [hlength, hbefore]
    exact hrun
  refine ⟨⟨lexemes, 257⟩, hl, hne, ?_, ((parse_tooDeep hl hne).2.1 256 257).mpr
    ⟨rfl, 257, Nat.le_of_eq hlength.symm, limits, ?_, ?_, fun j hj earlier he ↦ ?_, ?_⟩⟩
  · rw [derivable_tokens_iff hl hwhole, Lexing.tokenAt?_length]
    exact fun hcomplete ↦ nomatch hcomplete.1
  · rw [hbefore]
    exact hrun
  · rw [hlimits]
    decide
  · obtain ⟨limits', hrun', hlimits'⟩ := hruns j
    rw [hbefore] at he
    obtain rfl : limits' = earlier :=
      congrArg State.limits (Option.some.inj (hrun'.symm.trans he))
    rw [hlimits', List.length_singleton]
    omega
  · rw [Lexing.positionAt, List.getElem?_eq_none (Nat.le_of_eq hlength)]
    rfl

end Sentence

end Sentential

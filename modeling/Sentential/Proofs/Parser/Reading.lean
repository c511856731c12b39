import Sentential.Proofs.Grammar.Formed
import Sentential.Proofs.Parser.Steps

/-!
# What an expression is read as

An expression is read exactly where the lexemes begin with the tokens of a formed tree that is
not nested deeper than the levels allow and cannot be continued. Where the tree is nested too
deep, that is the error: no other error comes before it.
-/

namespace Sentential

namespace Parser

open Grammar

/-- The binding power of what comes next. -/
def nextPower (lexemes : List Lexeme) : Nat := Token.nextBindingPower (next lexemes)

/-- Some lexemes begin with the tokens of a tree, and the others are left. -/
def BeginsWith (t : Tree) (lexemes rest : List Lexeme) : Prop :=
  ∃ first, lexemes = first ++ rest ∧ first.map Lexeme.token = t.yield

/-- A label begins with itself. -/
theorem beginsWith_label_iff {v : Variable} {lexemes rest : List Lexeme} :
    BeginsWith (.label v) lexemes rest ↔ ∃ start, lexemes = ⟨.label v.label, start⟩ :: rest := by
  constructor
  · rintro ⟨first, rfl, hf⟩
    obtain ⟨⟨token, start⟩, others, rfl, ht, ho⟩ := List.map_eq_cons_iff.mp hf
    obtain rfl := List.map_eq_nil_iff.mp ho
    obtain rfl : token = .label v.label := ht
    exact ⟨start, rfl⟩
  · rintro ⟨start, rfl⟩
    exact ⟨[⟨.label v.label, start⟩], rfl, rfl⟩

/-- A negation begins with its sign and goes on with its target. -/
theorem beginsWith_negated_iff {t : Tree} {lexemes rest : List Lexeme} :
    BeginsWith (.negated t) lexemes rest ↔
      ∃ start others, lexemes = ⟨.negation, start⟩ :: others ∧ BeginsWith t others rest := by
  constructor
  · rintro ⟨first, rfl, hf⟩
    obtain ⟨⟨token, start⟩, others, rfl, ht, ho⟩ := List.map_eq_cons_iff.mp hf
    obtain rfl : token = .negation := ht
    exact ⟨start, others ++ rest, rfl, others, rfl, ho⟩
  · rintro ⟨start, _, rfl, first, rfl, hf⟩
    refine ⟨⟨.negation, start⟩ :: first, rfl, ?_⟩
    rw [List.map_cons, hf]
    rfl

/-- A tree in parentheses stands between them. -/
theorem beginsWith_grouped_iff {t : Tree} {lexemes rest : List Lexeme} :
    BeginsWith (.grouped t) lexemes rest ↔
      ∃ start stop others, lexemes = ⟨.leftParenthesis, start⟩ :: others ∧
        BeginsWith t others (⟨.rightParenthesis, stop⟩ :: rest) := by
  constructor
  · rintro ⟨first, rfl, hf⟩
    obtain ⟨⟨token, start⟩, others, rfl, ht, ho⟩ := List.map_eq_cons_iff.mp hf
    obtain rfl : token = .leftParenthesis := ht
    obtain ⟨within, last, rfl, hw, hl⟩ := List.map_eq_append_iff.mp ho
    obtain ⟨⟨token, stop⟩, none_, rfl, ht, hn⟩ := List.map_eq_cons_iff.mp hl
    obtain rfl := List.map_eq_nil_iff.mp hn
    obtain rfl : token = .rightParenthesis := ht
    refine ⟨start, stop, _, rfl, within, ?_, hw⟩
    exact List.append_assoc within _ rest
  · rintro ⟨start, stop, _, rfl, first, rfl, hf⟩
    refine ⟨⟨.leftParenthesis, start⟩ :: first ++ [⟨.rightParenthesis, stop⟩], ?_, ?_⟩
    · rw [List.append_assoc, List.singleton_append, List.cons_append]
    · rw [List.map_append, List.map_cons, hf]
      rfl

/-- A joined tree begins with its left operand, and its connective and right operand follow. -/
theorem beginsWith_joined_iff {t u : Tree} {c : Connective} {lexemes rest : List Lexeme} :
    BeginsWith (.joined c t u) lexemes rest ↔
      ∃ start middle, BeginsWith t lexemes (⟨.connective c, start⟩ :: middle) ∧
        BeginsWith u middle rest := by
  constructor
  · rintro ⟨first, rfl, hf⟩
    obtain ⟨before, others, rfl, hb, ho⟩ := List.map_eq_append_iff.mp hf
    obtain ⟨⟨token, start⟩, after, rfl, ht, ha⟩ := List.map_eq_cons_iff.mp ho
    obtain rfl : token = .connective c := ht
    refine ⟨start, after ++ rest, ⟨before, ?_, hb⟩, after, rfl, ha⟩
    rw [List.append_assoc, List.cons_append]
  · rintro ⟨start, _, ⟨before, rfl, hb⟩, after, rfl, ha⟩
    refine ⟨before ++ ⟨.connective c, start⟩ :: after, ?_, ?_⟩
    · rw [List.append_assoc, List.cons_append]
    · rw [List.map_append, List.map_cons, hb, ha]
      rfl

/-! ### What is read is a tree -/

/-- A formed tree stands where an expression was read, and what comes next does not take the last
part of it away. -/
structure Reading (power : Nat) (t : Tree) {lexemes : List Lexeme} (p : Parsed lexemes) :
    Prop where
  isFormed : t.IsFormed
  exceeds : t.Exceeds power
  endsBefore : t.EndsBefore (nextPower p.rest)
  beginsWith : BeginsWith t lexemes p.rest
  sentence_eq : p.sentence = t.sentence

variable {finish : Nat}

/-- A left operand, a connective and a right operand are read as the joined tree. -/
theorem Reading.join {power start : Nat} {c : Connective} {lexemes rest : List Lexeme}
    {left : Parsed lexemes} {right : Parsed rest} {t u : Tree} (ht : Reading power t left)
    (hr : left.rest = ⟨.connective c, start⟩ :: rest) (hp : power < c.bindingPower)
    (hu : Reading c.bindingPower u right) (hn : nextPower right.rest ≤ c.bindingPower) :
    Reading power (.joined c t u) (left.join hr right) := by
  have hte := ht.endsBefore
  have htb := ht.beginsWith
  rw [hr] at hte htb
  refine ⟨⟨⟨ht.isFormed, hte⟩, hu.isFormed, hu.exceeds⟩, hp, hn, ?_, ?_⟩
  · exact beginsWith_joined_iff.mpr ⟨start, rest, htb, hu.beginsWith⟩
  · change Sentence.binary c left.sentence right.sentence = _
    rw [ht.sentence_eq, hu.sentence_eq]
    rfl

/-- A reader that gives trees of fewer levels, ending before what does not exceed the limit. -/
def IsSound (levels : Nat) (reader : ExpressionReader) : Prop :=
  ∀ {power : Nat} {lexemes : List Lexeme} {p : Parsed lexemes}, reader power lexemes = .ok p →
    nextPower p.rest ≤ power ∧ ∃ t, Reading power t p ∧ t.nesting < levels

/-- Operands are trees, nested no deeper than the levels of what is within. -/
theorem IsSound.operand {levels : Nat} {inner : ExpressionReader} (hi : IsSound levels inner)
    (power : Nat) {lexemes : List Lexeme} {p : Parsed lexemes}
    (h : operand inner finish lexemes = .ok p) : ∃ t, Reading power t p ∧ t.nesting ≤ levels := by
  rcases operand_ok_cases h with ⟨v, start, hl, hs⟩ | ⟨start, rest, target, rfl, ht, hs, hr⟩ |
    ⟨start, rest, stop, content, rfl, hc, hs, hr⟩
  · have hb := beginsWith_label_iff.mpr ⟨start, hl⟩
    exact ⟨.label v, ⟨trivial, trivial, trivial, hb, hs⟩, Nat.zero_le _⟩
  · obtain ⟨hn, t, hread, hlevels⟩ := hi ht
    refine ⟨.negated t, ⟨⟨hread.isFormed, hread.exceeds⟩, trivial, ?_, ?_, ?_⟩, ?_⟩
    · rw [hr]
      exact hn
    · rw [hr]
      exact beginsWith_negated_iff.mpr ⟨start, rest, rfl, hread.beginsWith⟩
    · rw [hs, hread.sentence_eq]
      rfl
    · rw [Tree.nesting]
      omega
  · obtain ⟨-, t, hread, hlevels⟩ := hi hc
    have hb := hread.beginsWith
    rw [hr] at hb
    refine ⟨.grouped t, ⟨hread.isFormed, trivial, trivial, ?_, ?_⟩, ?_⟩
    · exact beginsWith_grouped_iff.mpr ⟨start, stop, rest, rfl, hb⟩
    · rw [hs, hread.sentence_eq]
      rfl
    · rw [Tree.nesting]
      omega

/-- Reading on after a tree gives a tree, as deep as the levels allow. -/
theorem IsSound.operators {levels power : Nat} {inner : ExpressionReader}
    (hi : IsSound levels inner) {lexemes : List Lexeme} {left p : Parsed lexemes} {t : Tree}
    (ht : Reading power t left) (hn : t.nesting ≤ levels) (h : operators inner power left = .ok p) :
    nextPower p.rest ≤ power ∧ ∃ u, Reading power u p ∧ u.nesting ≤ levels := by
  -- every connective that is read leaves fewer lexemes
  induction hm : left.rest.length using Nat.strongRecOn generalizing left t with
  | ind m ih =>
    rcases operators_ok_cases h with ⟨hp, rfl⟩ | ⟨c, start, rest, right, hr, hp, hright, h⟩
    · exact ⟨hp, t, ht, hn⟩
    · obtain ⟨hnext, u, hu, hlevels⟩ := hi hright
      have hshorter : (left.join hr right).rest.length < m := by
        rw [← hm]
        exact left.join_rest_lt hr right
      have hjoined : (Tree.joined c t u).nesting ≤ levels := by
        rw [Tree.nesting]
        omega
      exact ih _ hshorter (ht.join hr hp hu hnext) hjoined h rfl

/-- Expressions are read as trees. -/
theorem isSound_expression (finish levels : Nat) : IsSound levels (expression finish levels) := by
  induction levels with
  | zero =>
    intro power lexemes p h
    cases h
  | succ levels ih =>
    intro power lexemes p h
    rw [expression] at h
    cases ho : Parser.operand (expression finish levels) finish lexemes with
    | error e =>
      rw [ho] at h
      cases h
    | ok left =>
      rw [ho] at h
      obtain ⟨t, ht, hn⟩ := ih.operand power ho
      obtain ⟨hp, u, hu, hun⟩ := ih.operators ht hn h
      exact ⟨hp, u, hu, Nat.lt_succ_of_le hun⟩

/-! ### A tree is read -/

/-- An expression that begins with the tree goes on with the operators after it, unless the tree
is nested too deep, which is then the error. -/
def IsRead (finish : Nat) (t : Tree) : Prop :=
  ∀ (levels power : Nat) (lexemes rest : List Lexeme), BeginsWith t lexemes rest →
    t.Exceeds power → t.EndsBefore (nextPower rest) →
    (t.nesting ≤ levels → ∃ left : Parsed lexemes, left.sentence = t.sentence ∧ left.rest = rest ∧
      expression finish (levels + 1) power lexemes =
        operators (expression finish levels) power left) ∧
    (levels < t.nesting → ∃ position,
      expression finish (levels + 1) power lexemes = .error (.tooDeep maxNesting position))

/-- A tree that is not continued is the expression, unless it is nested too deep. -/
theorem IsRead.expression {t : Tree} (h : IsRead finish t) (levels : Nat) {power : Nat}
    {lexemes rest : List Lexeme} (hb : BeginsWith t lexemes rest) (he : t.Exceeds power)
    (hend : t.EndsBefore (nextPower rest)) (hn : nextPower rest ≤ power) :
    (t.nesting < levels → ∃ p : Parsed lexemes, p.sentence = t.sentence ∧ p.rest = rest ∧
      expression finish levels power lexemes = .ok p) ∧
    (levels ≤ t.nesting → ∃ position,
      expression finish levels power lexemes = .error (.tooDeep maxNesting position)) := by
  cases levels with
  | zero => exact ⟨fun hlt ↦ absurd hlt (Nat.not_lt_zero _), fun _ ↦ ⟨_, rfl⟩⟩
  | succ levels =>
    obtain ⟨hok, herror⟩ := h levels power lexemes rest hb he hend
    refine ⟨fun hlt ↦ ?_, fun hle ↦ herror (Nat.lt_of_succ_le hle)⟩
    obtain ⟨left, hs, hr, heq⟩ := hok (Nat.le_of_lt_succ hlt)
    refine ⟨left, hs, hr, ?_⟩
    rw [heq, operators_of_le (by rw [hr]; exact hn)]

/-- What the reading of an operand comes to is what the expression comes to. -/
theorem expression_of_operand {levels power : Nat} {lexemes : List Lexeme} {left : Parsed lexemes}
    (h : operand (expression finish levels) finish lexemes = .ok left) :
    expression finish (levels + 1) power lexemes =
      operators (expression finish levels) power left := by
  rw [expression, h]
  rfl

/-- An error in an operand is that of the expression. -/
theorem expression_of_operand_error {levels power : Nat} {lexemes : List Lexeme} {e : ParseError}
    (h : operand (expression finish levels) finish lexemes = .error e) :
    expression finish (levels + 1) power lexemes = .error e := by
  rw [expression, h]
  rfl

/-- Formed trees are read. -/
theorem isRead_of_isFormed (finish : Nat) {t : Tree} (ht : t.IsFormed) : IsRead finish t := by
  induction t with
  | label v =>
    intro levels power lexemes rest hb _ _
    obtain ⟨start, rfl⟩ := beginsWith_label_iff.mp hb
    refine ⟨fun _ ↦ ?_, fun h ↦ absurd h (Nat.not_lt_zero levels)⟩
    exact ⟨_, rfl, rfl, expression_of_operand (operand_label v start rest)⟩
  | grouped inner ih =>
    intro levels power lexemes rest hb _ _
    obtain ⟨start, stop, others, rfl, hbi⟩ := beginsWith_grouped_iff.mp hb
    obtain ⟨hok, herror⟩ :=
      (ih ht).expression levels hbi inner.exceeds_zero inner.endsBefore_zero (Nat.le_refl 0)
    rw [Tree.nesting]
    constructor
    · intro hn
      obtain ⟨content, hs, hr, hi⟩ := hok (by omega)
      obtain ⟨p, hp, hps, hpr⟩ := operand_group_of_closed hi hr
      exact ⟨p, hps.trans hs, hpr, expression_of_operand hp⟩
    · intro hn
      obtain ⟨position, hi⟩ := herror (by omega)
      exact ⟨position, expression_of_operand_error (operand_group_of_error hi)⟩
  | negated target ih =>
    intro levels power lexemes rest hb _ hend
    obtain ⟨start, others, rfl, hbt⟩ := beginsWith_negated_iff.mp hb
    obtain ⟨hok, herror⟩ :=
      (ih ht.1).expression levels hbt ht.2 (ht.2.endsBefore_of_le hend hend) hend
    have ho := operand_negation (expression finish levels) finish start others
    rw [Tree.nesting]
    constructor
    · intro hn
      obtain ⟨target', hs, hr, hi⟩ := hok (by omega)
      rw [hi] at ho
      exact ⟨_, congrArg Sentence.negation hs, hr, expression_of_operand ho⟩
    · intro hn
      obtain ⟨position, hi⟩ := herror (by omega)
      rw [hi] at ho
      exact ⟨position, expression_of_operand_error ho⟩
  | joined c left right ihl ihr =>
    intro levels power lexemes rest hb he hend
    obtain ⟨⟨hl, hle⟩, hr, hre⟩ := ht
    obtain ⟨start, middle, hbl, hbr⟩ := beginsWith_joined_iff.mp hb
    have hend' : right.EndsBefore (nextPower rest) := hre.endsBefore_of_le hend
      (Nat.le_trans hend (Nat.le_of_lt c.bindingPower_lt_negation))
    obtain ⟨hokl, herrorl⟩ := ihl hl levels power lexemes _ hbl (hle.exceeds he) hle
    obtain ⟨hokr, herrorr⟩ := (ihr hr).expression levels hbr hre hend' hend
    rw [Tree.nesting]
    constructor
    · intro hn
      obtain ⟨p, hps, hpr, hp⟩ := hokl (by omega)
      obtain ⟨q, hqs, hqr, hq⟩ := hokr (by omega)
      refine ⟨p.join hpr q, ?_, hqr, ?_⟩
      · change Sentence.binary c p.sentence q.sentence = _
        rw [hps, hqs]
        rfl
      · rw [hp, operators_connective hpr he, hq]
        rfl
    · intro hn
      by_cases hnl : levels < left.nesting
      · exact herrorl hnl
      · obtain ⟨p, hps, hpr, hp⟩ := hokl (Nat.le_of_not_lt hnl)
        obtain ⟨position, hq⟩ := herrorr (by omega)
        refine ⟨position, ?_⟩
        rw [hp, operators_connective hpr he, hq]
        rfl

end Parser

end Sentential

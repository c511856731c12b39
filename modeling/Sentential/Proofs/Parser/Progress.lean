import Sentential.Proofs.Parser.Reading
import Sentential.Proofs.Parser.Record
import Sentential.Proofs.Token.Scanning

/-!
# Reading at a cursor comes to an end

The reading at a cursor has the result of the reading by which sentences are defined, for which the
lexemes at a cursor are those that are left there. Its record is orderly, so it never looks past the
end of the text and every success takes tokens. Therefore as many steps as there are tokens are
enough, and there are no more calls than tokens allow.
-/

namespace Sentential

/-- The entry at a cursor within the text is what comes next there. -/
theorem Lexing.entry_eq {lexing : Lexing} {cursor : Nat} (h : cursor ≤ lexing.lexemes.length) :
    lexing.entry cursor = (Parser.next (lexing.lexemes.drop cursor),
      Parser.position lexing.finish (lexing.lexemes.drop cursor)) := by
  have hmin : min cursor (lexing.entries.length - 1) = cursor := by
    rw [length_entries]
    omega
  simp only [entry, hmin, List.get_eq_getElem, Parser.next, Parser.position, List.head?_drop]
  rcases Nat.lt_or_eq_of_le h with hlt | rfl
  · simp [entries, List.getElem_append_left, hlt]
  · simp [entries]

namespace Cursor

open Sentential.Parser (Parsed)

variable {lexing : Lexing} {low middle cursor : Nat} {lexemes rest : List Lexeme}

/-- If some lexemes are left, those after the first of them are left at the next cursor. -/
theorem lt_and_drop_succ {lexeme : Lexeme} (h : lexing.lexemes.drop cursor = lexeme :: rest) :
    cursor < lexing.lexemes.length ∧ rest = lexing.lexemes.drop (cursor + 1) := by
  have hlt : cursor < lexing.lexemes.length := by
    have hlength := congrArg List.length h
    rw [List.length_drop, List.length_cons] at hlength
    omega
  rw [List.drop_eq_getElem_cons hlt] at h
  exact ⟨hlt, (List.cons.inj h).2.symm⟩

/-- Where fewer lexemes are left, the cursor is further on. -/
theorem lt_of_drop_lt {stop : Nat}
    (h : (lexing.lexemes.drop stop).length < (lexing.lexemes.drop cursor).length) :
    cursor < stop := by
  rw [List.length_drop, List.length_drop] at h
  omega

/-- What comes next is taken if it is expected. -/
theorem runs_expect_next {left : List Lexeme} {token : Option Token}
    (hc : cursor ≤ lexing.lexemes.length) (hd : lexing.lexemes.drop cursor = left)
    (h : Parser.next left = token) (expected : Expectation) :
    Runs (expect lexing cursor token expected) [.looked cursor] (.ok (cursor + 1)) := by
  refine runs_expect_of_eq expected ?_
  rw [Lexing.entry_eq hc, hd]
  exact h

/-- What comes next is unexpected if it is anything else. -/
theorem runs_expect_other {left : List Lexeme} {token : Option Token}
    (hc : cursor ≤ lexing.lexemes.length) (hd : lexing.lexemes.drop cursor = left)
    (h : Parser.next left ≠ token) (expected : Expectation) :
    Runs (expect lexing cursor token expected) [.looked cursor, .looked cursor]
      (.error (Parser.unexpected expected lexing.finish left)) := by
  have hentry := Lexing.entry_eq hc
  rw [hd] at hentry
  have htoken : (lexing.entry cursor).1 ≠ token := by
    rw [hentry]
    exact h
  have hfails := runs_expect_of_ne expected htoken
  rw [hentry] at hfails
  exact hfails

/-- The reading at a cursor has the same result as a reading of lexemes: its record is orderly, and
after a success the cursor is where the lexemes that are left begin. -/
def Tracks (lexing : Lexing) (low : Nat) (run : Run (Nat × Sentence)) :
    Except ParseError (Parsed lexemes) → Prop
  | .ok p => ∃ cursor moments, Runs run moments (.ok (cursor, p.sentence)) ∧
      cursor ≤ lexing.lexemes.length ∧ p.rest = lexing.lexemes.drop cursor ∧
      IsOrderly lexing (2 * cursor) low moments
  | .error e => ∃ moments, Runs run moments (.error e) ∧
      IsOrderly lexing (2 * (lexing.lexemes.length + 1)) low moments

namespace Tracks

variable {run : Run (Nat × Sentence)} {result : Except ParseError (Parsed lexemes)}

/-- The lower bound may be lower. -/
theorem mono (h : Tracks lexing middle run result) (hle : low ≤ middle) :
    Tracks lexing low run result := by
  cases result with
  | error e =>
    obtain ⟨moments, hruns, horder⟩ := h
    exact ⟨moments, hruns, horder.mono hle⟩
  | ok p =>
    obtain ⟨cursor, moments, hruns, hc, hr, horder⟩ := h
    exact ⟨cursor, moments, hruns, hc, hr, horder.mono hle⟩

/-- What was read is the success of both readings. -/
theorem pure (p : Parsed lexemes) (hc : cursor ≤ lexing.lexemes.length)
    (hr : p.rest = lexing.lexemes.drop cursor) (hlow : low ≤ 2 * cursor) :
    Tracks lexing low (Pure.pure (cursor, p.sentence)) (.ok p) :=
  ⟨cursor, [], runs_pure _, hc, hr, .nil hlow⟩

/-- An error is an error of both readings. -/
theorem throw (hlow : low ≤ 2 * (lexing.lexemes.length + 1)) (e : ParseError) :
    Tracks lexing low (MonadExcept.throw e) (.error e : Except ParseError (Parsed lexemes)) :=
  ⟨[], runs_throw e, .nil hlow⟩

/-- What happens before only adds to the record. -/
theorem after {α : Type} {run : Run α} {moments : List Moment} {a : α}
    {next : α → Run (Nat × Sentence)} (h : Runs run moments (.ok a))
    (horder : IsOrderly lexing middle low moments)
    (hnext : Tracks lexing middle (next a) result) : Tracks lexing low (run >>= next) result := by
  cases result with
  | error e =>
    obtain ⟨later, hruns, hlater⟩ := hnext
    exact ⟨_, h.bind hruns, horder.append hlater⟩
  | ok p =>
    obtain ⟨cursor, later, hruns, hc, hr, hlater⟩ := hnext
    exact ⟨cursor, _, h.bind hruns, hc, hr, horder.append hlater⟩

/-- Nothing goes on after an error. -/
theorem bind_error {e : ParseError}
    (h : Tracks lexing low run (.error e : Except ParseError (Parsed lexemes)))
    (next : Nat × Sentence → Run (Nat × Sentence)) :
    Tracks lexing low (run >>= next) (.error e : Except ParseError (Parsed rest)) := by
  obtain ⟨moments, hruns, horder⟩ := h
  exact ⟨moments, hruns.bind_error next, horder⟩

/-- One reading goes on after another. -/
theorem bind {next : Nat × Sentence → Run (Nat × Sentence)}
    {later : Parsed lexemes → Except ParseError (Parsed rest)} (h : Tracks lexing low run result)
    (hnext : ∀ p cursor, result = .ok p → cursor ≤ lexing.lexemes.length →
      p.rest = lexing.lexemes.drop cursor →
      Tracks lexing (2 * cursor) (next (cursor, p.sentence)) (later p)) :
    Tracks lexing low (run >>= next) (result.bind later) := by
  cases result with
  | error e => exact h.bind_error next
  | ok p =>
    obtain ⟨cursor, moments, hruns, hc, hr, horder⟩ := h
    exact after hruns horder (hnext p cursor rfl hc hr)

/-- What was read may become a part of something else. -/
theorem map {f : Parsed lexemes → Parsed rest} {g : Sentence → Sentence}
    (h : Tracks lexing low run result) (hs : ∀ p, (f p).sentence = g p.sentence)
    (hr : ∀ p, (f p).rest = p.rest) :
    Tracks lexing low (run >>= fun x ↦ Pure.pure (x.1, g x.2)) (result.map f) := by
  have hmap : result.map f = result.bind fun p ↦ .ok (f p) := by cases result <;> rfl
  rw [hmap]
  refine h.bind fun p cursor _ hc hrest ↦ ?_
  change Tracks lexing _ (Pure.pure (cursor, g p.sentence)) (.ok (f p))
  rw [← hs]
  exact pure (f p) hc ((hr p).trans hrest) (Nat.le_refl _)

/-- The entry at a cursor within the text is what comes next there. -/
theorem look {left : List Lexeme} {next : Option Token × Nat → Run (Nat × Sentence)}
    (hc : cursor ≤ lexing.lexemes.length) (hd : lexing.lexemes.drop cursor = left)
    (h : Tracks lexing low (next (Parser.next left, Parser.position lexing.finish left)) result) :
    Tracks lexing low (Cursor.look lexing cursor >>= next) result := by
  rw [← hd, ← Lexing.entry_eq hc] at h
  exact after (runs_look lexing cursor) (.looked hc (.nil (Nat.le_refl low))) h

/-- An unexpected entry within the text is the unexpected lexeme, or the end of the text. -/
theorem unexpected {left : List Lexeme} (hc : cursor ≤ lexing.lexemes.length)
    (hd : lexing.lexemes.drop cursor = left) (hlow : low ≤ 2 * (lexing.lexemes.length + 1))
    (expected : Expectation) :
    Tracks lexing low (Cursor.unexpected lexing cursor expected)
      (.error (Parser.unexpected expected lexing.finish left) :
        Except ParseError (Parsed lexemes)) :=
  look hc hd (throw hlow _)

/-- A call fails as its answer fails. -/
theorem ask_error {call : Call} {e : ParseError} (hc : call.cursor ≤ lexing.lexemes.length)
    (h : Tracks lexing (call.rank + 1) run (.error e : Except ParseError (Parsed lexemes))) :
    Tracks lexing call.rank (Cursor.ask call run)
      (.error e : Except ParseError (Parsed lexemes)) := by
  obtain ⟨moments, hruns, horder⟩ := h
  exact ⟨_, hruns.ask_error call, .asked (Nat.le_refl _) hc horder⟩

/-- A call is answered as what it asks for is read, if that takes lexemes and stops where it has
to. -/
theorem ask {call : Call} (hc : call.cursor ≤ lexing.lexemes.length)
    (h : Tracks lexing (call.rank + 1) run result)
    (htakes : ∀ p, result = .ok p →
      p.rest.length < (lexing.lexemes.drop call.cursor).length)
    (hstops : ∀ p cursor, result = .ok p → cursor ≤ lexing.lexemes.length →
      p.rest = lexing.lexemes.drop cursor → call.StopsAt lexing cursor) :
    Tracks lexing call.rank (Cursor.ask call run) result := by
  cases result with
  | error e => exact ask_error hc h
  | ok p =>
    obtain ⟨cursor, moments, hruns, hcursor, hr, horder⟩ := h
    have hbehind : call.cursor < cursor := lt_of_drop_lt (hr ▸ htakes p rfl)
    have hanswered : IsOrderly lexing (2 * cursor) (2 * cursor) [.answered call cursor] :=
      .answered ⟨hbehind, hcursor, hstops p cursor rfl hcursor hr⟩ (.nil (Nat.le_refl _))
    exact ⟨cursor, _, hruns.ask call, hcursor, hr,
      .asked (Nat.le_refl _) hc (horder.append hanswered)⟩

/-- A call whose answer comes to an end is the first thing on record. -/
theorem head?_of_runs_ask {call : Call} {moments : List Moment}
    {answered : Except ParseError (Nat × Sentence)} (h : Tracks lexing low run result)
    (hruns : Runs (Cursor.ask call run) moments answered) :
    moments.head? = some (.asked call) := by
  cases result with
  | error e =>
    obtain ⟨later, hanswer, -⟩ := h
    rw [(hruns.unique (hanswer.ask_error call)).1]
    rfl
  | ok p =>
    obtain ⟨cursor, later, hanswer, -⟩ := h
    rw [(hruns.unique (hanswer.ask call)).1]
    rfl

end Tracks

/-! ### What is asked for -/

/-- A reader of expressions is tracked at all cursors within the text from a first one on. -/
def AreTracked (lexing : Lexing) (first depth : Nat) (inner : ExpressionReader)
    (reader : Parser.ExpressionReader) : Prop :=
  ∀ power cursor, first ≤ cursor → cursor ≤ lexing.lexemes.length →
    Tracks lexing (2 * cursor) (askExpression inner cursor power depth)
      (reader power (lexing.lexemes.drop cursor))

variable {first depth power : Nat} {inner : ExpressionReader} {reader : Parser.ExpressionReader}

/-- An expression in parentheses is read at a cursor as it is read from lexemes. -/
theorem tracks_group {start : Nat} (hi : AreTracked lexing first (depth + 1) inner reader)
    (hf : first ≤ cursor + 1) (hc : cursor + 1 ≤ lexing.lexemes.length) :
    Tracks lexing (2 * (cursor + 1))
      (do
        let (cursor, content) ← askExpression inner (cursor + 1) 0 (depth + 1)
        let cursor ← expect lexing cursor (some .rightParenthesis) .closing
        return (cursor, content))
      (Parser.operand reader lexing.finish
        (⟨.leftParenthesis, start⟩ :: lexing.lexemes.drop (cursor + 1))) := by
  have hinner := hi 0 (cursor + 1) hf hc
  cases hcontent : reader 0 (lexing.lexemes.drop (cursor + 1)) with
  | error e =>
    rw [hcontent] at hinner
    rw [Parser.operand_group_of_error hcontent]
    exact hinner.bind_error _
  | ok content =>
    rw [hcontent] at hinner
    obtain ⟨stop, moments, hruns, hstop, hr, horder⟩ := hinner
    refine Tracks.after hruns horder ?_
    rcases Parser.operand_group_cases start hcontent with ⟨place, p, hp, hs, hrest⟩ | ⟨hne, he⟩
    · obtain ⟨hlt, hafter⟩ := lt_and_drop_succ (hr.symm.trans hrest)
      have hnext : Parser.next content.rest = some .rightParenthesis :=
        Parser.next_eq_some_iff.mpr ⟨place, _, hrest⟩
      rw [hp, ← hs]
      exact Tracks.after (runs_expect_next hstop hr.symm hnext _)
        (.looked hstop (.nil (Nat.le_refl _))) (Tracks.pure p hlt hafter (by omega))
    · have hnext : Parser.next content.rest ≠ some .rightParenthesis := by
        intro hnext
        obtain ⟨place, after, hrest⟩ := Parser.next_eq_some_iff.mp hnext
        exact hne place after hrest
      rw [he]
      exact ⟨_, (runs_expect_other hstop hr.symm hnext _).bind_error _,
        .looked hstop (.looked hstop (.nil (by omega)))⟩

/-- An operand is read at a cursor as it is read from the lexemes that are left. -/
theorem tracks_operand (hi : AreTracked lexing first (depth + 1) inner reader)
    (hf : first ≤ cursor + 1) (hc : cursor ≤ lexing.lexemes.length) :
    Tracks lexing (2 * (cursor + 1)) (operand inner lexing cursor depth)
      (Parser.operand reader lexing.finish (lexing.lexemes.drop cursor)) := by
  have hlow : 2 * (cursor + 1) ≤ 2 * (lexing.lexemes.length + 1) := by omega
  generalize hd : lexing.lexemes.drop cursor = left
  refine Tracks.look hc hd ?_
  cases left with
  | nil => exact Tracks.unexpected hc hd hlow .operand
  | cons lexeme rest =>
    obtain ⟨hlt, rfl⟩ := lt_and_drop_succ hd
    obtain ⟨token, start⟩ := lexeme
    cases token with
    | label text =>
      change Tracks lexing _ (atom cursor text) _
      cases hv : Variable.ofLabel text with
      | error e =>
        rw [Parser.operand, atom, hv]
        exact Tracks.throw hlow _
      | ok v =>
        rw [atom, hv]
        obtain rfl : v.label = text := Variable.ofLabel_eq_ok_iff.mp hv
        rw [Parser.operand_label]
        exact Tracks.pure ⟨.atom v, _, _⟩ hlt rfl (Nat.le_refl _)
    | negation =>
      rw [Parser.operand_negation]
      exact (hi _ (cursor + 1) hf hlt).map (fun _ ↦ rfl) fun _ ↦ rfl
    | connective c => exact Tracks.unexpected hc hd hlow .operand
    | leftParenthesis => exact tracks_group hi hf hlt
    | rightParenthesis => exact Tracks.unexpected hc hd hlow .operand

/-- What a connective and its right operand are joined to leaves fewer lexemes. -/
theorem rest_lt_of_map_join {start : Nat} {c : Connective} {left p : Parsed lexemes}
    {hr : left.rest = ⟨.connective c, start⟩ :: rest} {right : Except ParseError (Parsed rest)}
    (h : right.map (left.join hr) = .ok p) : p.rest.length < left.rest.length := by
  cases right with
  | error e => cases h
  | ok right =>
    cases h
    exact left.join_rest_lt hr right

/-- Going on with what was joined is going on after it was joined. -/
theorem bind_map_join {start : Nat} {c : Connective} {left : Parsed lexemes}
    {hr : left.rest = ⟨.connective c, start⟩ :: rest} (right : Except ParseError (Parsed rest)) :
    (right.map (left.join hr)).bind (Parser.operators reader power) =
      right.bind fun p ↦ Parser.operators reader power (left.join hr p) := by
  cases right <;> rfl

/-- A connective and its right operand are read at a cursor as they are read from lexemes. -/
theorem tracks_operation {start : Nat} {c : Connective}
    (hi : AreTracked lexing first (depth + 1) inner reader) (hf : first ≤ cursor + 1)
    (left : Parsed lexemes) (hr : left.rest = ⟨.connective c, start⟩ :: rest)
    (hd : lexing.lexemes.drop cursor = left.rest) :
    Tracks lexing (2 * (cursor + 1)) (operation inner lexing cursor depth left.sentence)
      ((reader c.bindingPower rest).map (left.join hr)) := by
  obtain ⟨hlt, hrest⟩ := lt_and_drop_succ (hd.trans hr)
  refine Tracks.look (Nat.le_of_lt hlt) (hd.trans hr) ?_
  have hright := hi c.bindingPower (cursor + 1) hf hlt
  rw [← hrest] at hright
  exact hright.map (fun _ ↦ rfl) fun _ ↦ rfl

/-- Any other token that is taken for an operator is unexpected. -/
theorem tracks_operation_unexpected {start : Nat} {token : Token} (inner : ExpressionReader)
    (depth : Nat) (s : Sentence) (hd : lexing.lexemes.drop cursor = ⟨token, start⟩ :: rest)
    (ht : ∀ c, token ≠ .connective c) :
    Tracks lexing (2 * (cursor + 1)) (operation inner lexing cursor depth s)
      (.error (.unexpected .operator (some token) start) :
        Except ParseError (Parsed lexemes)) := by
  have hc : cursor < lexing.lexemes.length := (lt_and_drop_succ hd).1
  have hfails : Tracks lexing (2 * (cursor + 1)) (unexpected lexing cursor .operator)
      (.error (.unexpected .operator (some token) start) : Except ParseError (Parsed lexemes)) :=
    Tracks.unexpected (Nat.le_of_lt hc) hd (by omega) .operator
  refine Tracks.look (Nat.le_of_lt hc) hd ?_
  cases token with
  | connective c => exact absurd rfl (ht c)
  | label text => exact hfails
  | negation => exact hfails
  | leftParenthesis => exact hfails
  | rightParenthesis => exact hfails

/-- Operators are read on at a cursor as they are read on from the lexemes that are left, if there
are steps for these and for the end of the text. -/
theorem tracks_operators {steps : Nat} (hi : AreTracked lexing first (depth + 1) inner reader)
    (hf : first ≤ cursor + 1) (left : Parsed lexemes) (hc : cursor ≤ lexing.lexemes.length)
    (hd : lexing.lexemes.drop cursor = left.rest)
    (hsteps : lexing.lexemes.length < steps + cursor) :
    Tracks lexing (2 * cursor) (operators inner lexing power depth steps cursor left.sentence)
      (Parser.operators reader power left) := by
  induction steps generalizing left cursor with
  | zero => omega
  | succ steps ih =>
    refine Tracks.look hc hd ?_
    change Tracks lexing _
      (if power < Token.nextBindingPower (Parser.next left.rest) then _ else _) _
    rcases Parser.operators_cases power left with hp | ⟨c, start, rest, hr, hp⟩ |
      ⟨token, start, rest, hr, hp, ht⟩
    · rw [Parser.operators_of_le hp, if_neg (Nat.not_lt.mpr hp)]
      exact Tracks.pure left hc hd.symm (Nat.le_refl _)
    · rw [Parser.operators_connective hr hp, if_pos (by rw [hr]; exact hp), ← bind_map_join]
      have hask : Tracks lexing (2 * cursor + 1)
          (ask (.operation cursor depth left.sentence)
            (operation inner lexing cursor depth left.sentence))
          ((reader c.bindingPower rest).map (left.join hr)) :=
        Tracks.ask hc (tracks_operation hi hf left hr hd)
          (fun p h ↦ hd ▸ rest_lt_of_map_join h) fun _ _ _ _ _ ↦ trivial
      refine (hask.mono (Nat.le_succ _)).bind fun p stop h hstop hrest ↦ ?_
      -- the operator is taken, so the steps that are left are enough for what is left
      have hlt : cursor < stop := lt_of_drop_lt (hrest ▸ hd ▸ rest_lt_of_map_join h)
      exact ih (by omega) p hstop hrest.symm (by omega)
    · rw [Parser.operators_unexpected hr hp ht, if_pos (by rw [hr]; exact hp)]
      have hask : Tracks lexing (2 * cursor + 1)
          (ask (.operation cursor depth left.sentence)
            (operation inner lexing cursor depth left.sentence))
          (.error (.unexpected .operator (some token) start) :
            Except ParseError (Parsed lexemes)) :=
        Tracks.ask_error hc (tracks_operation_unexpected inner depth _ (hd.trans hr) ht)
      exact (hask.mono (Nat.le_succ _)).bind_error _

/-- Expressions are tracked when they are answered as they are read, for they end where no operator
exceeds their power. -/
theorem areTracked_of_expression {levels : Nat} (h : ∀ power cursor, first ≤ cursor →
      cursor ≤ lexing.lexemes.length → Tracks lexing (2 * cursor + 1) (inner cursor power depth)
        (Parser.expression lexing.finish levels power (lexing.lexemes.drop cursor))) :
    AreTracked lexing first depth inner (Parser.expression lexing.finish levels) := by
  intro power cursor hf hc
  have hask : Tracks lexing (Call.expression cursor power depth).rank _ _ :=
    Tracks.ask hc (h power cursor hf hc) (fun p _ ↦ p.rest_lt) fun p stop hp hstop hr ↦ ?_
  · exact hask
  · obtain ⟨hpower, -⟩ := Parser.isSound_expression _ _ hp
    change Token.nextBindingPower (lexing.entry stop).1 ≤ power
    rw [Lexing.entry_eq hstop, ← hr]
    exact hpower

/-- An expression is read at a cursor as it is read from the lexemes that are left, if the depth and
the levels are those of one place and there are steps for the lexemes and the end of the text. -/
theorem tracks_expression (lexing : Lexing) {levels steps : Nat}
    (h : levels + depth = maxNesting + 1) (power : Nat)
    (hsteps : lexing.lexemes.length < steps + cursor) (hc : cursor ≤ lexing.lexemes.length) :
    Tracks lexing (2 * cursor + 1) (expression lexing steps cursor power depth)
      (Parser.expression lexing.finish levels power (lexing.lexemes.drop cursor)) := by
  induction steps generalizing levels depth power cursor with
  | zero => omega
  | succ steps ih =>
    cases levels with
    | zero =>
      change Tracks lexing _ (if _ then _ else _) _
      rw [if_pos (by omega)]
      exact Tracks.look hc rfl (Tracks.throw (by omega) _)
    | succ levels =>
      have hinner : AreTracked lexing (lexing.lexemes.length + 1 - steps) (depth + 1)
          (expression lexing steps) (Parser.expression lexing.finish levels) :=
        areTracked_of_expression fun power _ hf ↦ ih (by omega) power (by omega)
      have hf : lexing.lexemes.length + 1 - steps ≤ cursor + 1 := by omega
      have hoperand : Tracks lexing (2 * cursor + 1)
          (ask (.operand cursor depth) (operand (expression lexing steps) lexing cursor depth))
          (Parser.operand (Parser.expression lexing.finish levels) lexing.finish
            (lexing.lexemes.drop cursor)) :=
        Tracks.ask hc (tracks_operand hinner hf hc) (fun p _ ↦ p.rest_lt)
          fun _ _ _ _ _ ↦ trivial
      change Tracks lexing _ (if _ then _ else _) _
      rw [if_neg (by omega)]
      refine hoperand.bind fun left stop _ hstop hr ↦ ?_
      have hlt : cursor < stop := lt_of_drop_lt (hr ▸ left.rest_lt)
      exact tracks_operators hinner (by omega) left hstop hr.symm (by omega)

/-! ### The whole text -/

/-- The first call is for an expression at the first token. It is read as it is by the definition of
sentences, and after it the end of the text is expected as it is there. -/
theorem runs_sentence {steps : Nat} (hne : lexing.lexemes ≠ [])
    (hsteps : lexing.lexemes.length < steps) :
    ∃ moments, Runs (sentence lexing steps) moments (Parser.sentence lexing) ∧
      moments.head? = some (.asked (.expression 0 0 0)) ∧
      IsOrderly lexing (2 * (lexing.lexemes.length + 1)) 0 moments := by
  have hwhole := tracks_expression lexing (Nat.add_zero (maxNesting + 1)) 0 hsteps (Nat.zero_le _)
  have hask : Tracks lexing 0 (askExpression (expression lexing steps) 0 0 0) _ :=
    areTracked_of_expression
      (fun power _ _ ↦ tracks_expression lexing (Nat.add_zero _) power (by omega))
      0 0 (Nat.le_refl _) (Nat.zero_le _)
  rw [List.drop_zero] at hask
  have hempty : ¬lexing.lexemes.isEmpty := fun h ↦ hne (List.isEmpty_iff.mp h)
  rw [sentence, Parser.sentence, if_neg hempty, if_neg hempty]
  cases hresult : Parser.expression lexing.finish (maxNesting + 1) 0 lexing.lexemes with
  | error e =>
    rw [hresult] at hask
    obtain ⟨moments, hruns, horder⟩ := hask
    exact ⟨moments, hruns.bind_error _, hwhole.head?_of_runs_ask hruns, horder⟩
  | ok whole =>
    rw [hresult] at hask
    obtain ⟨stop, moments, hruns, hstop, hr, horder⟩ := hask
    have hhead (later : List Moment) :
        (moments ++ later).head? = some (.asked (.expression 0 0 0)) := by
      rw [List.head?_append, hwhole.head?_of_runs_ask hruns, Option.some_or]
    change ∃ moments, Runs _ moments (if whole.rest.isEmpty then _ else _) ∧ _
    by_cases hend : whole.rest = []
    · have hnext : Parser.next whole.rest = none := Parser.next_eq_none_iff.mpr hend
      rw [if_pos (List.isEmpty_iff.mpr hend)]
      exact ⟨_, hruns.bind ((runs_expect_next hstop hr.symm hnext _).bind (runs_pure _)), hhead _,
        horder.append (.looked hstop (.nil (by omega)))⟩
    · have hnext : Parser.next whole.rest ≠ none := fun h ↦ hend (Parser.next_eq_none_iff.mp h)
      rw [if_neg fun h ↦ hend (List.isEmpty_iff.mp h)]
      exact ⟨_, hruns.bind ((runs_expect_other hstop hr.symm hnext _).bind_error _), hhead _,
        horder.append (.looked hstop (.looked hstop (.nil (by omega))))⟩

/-- Where a text is not blank, as many steps as there are tokens are enough for the reading at a
cursor, which has the result of reading the text. Nothing is looked at past the end of the text,
every call is within it, and every call that succeeds takes at least one token, leaves the end of
the text, and stops where no operator exceeds its power if it is for an expression. No token is the
place of two expressions, nor of two operands or operators. -/
theorem read_progresses {text : String} {steps : Nat} (h : Lexing.ofText text = .ok lexing)
    (hb : ∃ c ∈ text.toList, isBlank c = false) (hsteps : lexing.entries.length ≤ steps) :
    ∃ moments, read lexing steps = some (Sentence.parse text, moments) ∧
      moments.head? = some (.asked (.expression 0 0 0)) ∧
      (∀ moment ∈ moments, moment.IsSafe lexing) ∧
      (calls moments).Pairwise (fun call call' ↦ call.rank < call'.rank) ∧
      ∀ kind, ((calls moments).filter fun call ↦ call.isExpression == kind).length ≤
        lexing.entries.length := by
  have hne : lexing.lexemes ≠ [] := by
    intro hnil
    obtain ⟨c, hc, hblank⟩ := hb
    have hall := Lexing.exists_ofText_eq_nil_iff.mp ⟨lexing.finish, by rw [h, ← hnil]⟩
    rw [hall c hc] at hblank
    cases hblank
  have hparse : Sentence.parse text = Parser.sentence lexing := by rw [Sentence.parse_eq, h]
  rw [Lexing.length_entries] at hsteps
  obtain ⟨moments, hruns, hhead, horder⟩ := runs_sentence hne hsteps
  rw [hparse]
  exact ⟨moments, hruns [], hhead, horder.isSafe, horder.calls_ascending.1,
    horder.length_filter_calls_le⟩

private def unclosed : Lexing :=
  ⟨[⟨.negation, 0⟩, ⟨.leftParenthesis, 1⟩, ⟨.label "a", 2⟩], 3⟩

/-- Where a parenthesis is not closed, the end of the text is looked at for it, and nothing past
that. -/
theorem read_progresses_unclosed :
    Lexing.ofText "-(a" = .ok unclosed ∧ (∃ c ∈ "-(a".toList, isBlank c = false) ∧
    unclosed.entries.length ≤ 4 ∧
    ∃ moments, read unclosed 4 = some (.error (.unexpected .closing none 3), moments) ∧
      calls moments = [.expression 0 0 0, .operand 0 0, .expression 1 80 1, .operand 1 1,
        .expression 2 0 2, .operand 2 2] ∧
      .looked 3 ∈ moments ∧ ∀ moment ∈ moments, moment.IsSafe unclosed := by
  have hsign : Token.read? ['-', '(', 'a'] = some (.negation, ['(', 'a']) := rfl
  have hopen : Token.read? ['(', 'a'] = some (.leftParenthesis, ['a']) := rfl
  have hlabel : Token.read? ['a'] = some (.label "a", []) := rfl
  have hl : Lexing.ofText "-(a" = .ok unclosed := by
    change Lexing.scan 0 ['-', '(', 'a'] = _
    rw [Lexing.scan_of_read? rfl hsign, Lexing.scan_of_read? rfl hopen,
      Lexing.scan_of_read? rfl hlabel, Lexing.scan_nil]
    rfl
  have hb : ∃ c ∈ "-(a".toList, isBlank c = false := ⟨'a', by decide, by decide⟩
  have hsteps : unclosed.entries.length ≤ 4 := by decide
  obtain ⟨moments, hread, -, hsafe, -⟩ := read_progresses hl hb hsteps
  have hrecord : read unclosed 4 = some (.error (.unexpected .closing none 3),
      [.asked (.expression 0 0 0), .asked (.operand 0 0), .looked 0,
        .asked (.expression 1 80 1), .asked (.operand 1 1), .looked 1,
        .asked (.expression 2 0 2), .asked (.operand 2 2), .looked 2,
        .answered (.operand 2 2) 3, .looked 3, .answered (.expression 2 0 2) 3,
        .looked 3, .looked 3]) := by rfl
  obtain ⟨-, rfl⟩ := Prod.mk.inj (Option.some.inj (hread.symm.trans hrecord))
  exact ⟨hl, hb, hsteps, _, hrecord, rfl, by simp, hsafe⟩

end Cursor

end Sentential

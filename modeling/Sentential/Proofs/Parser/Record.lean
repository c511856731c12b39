import Mathlib.Data.List.Perm.Subperm
import Sentential.Sentence.Parser.Cursor

/-!
# Orderly records

A reading that comes to an end adds some moments to the record and has a result. The record is
orderly if nothing in it is past the end of the text, every answer is behind its call, and the calls
begin in the order of the tokens, where at one token an expression comes before anything else. Then
each token is the place of at most one expression and at most one operand or operator.
-/

namespace Sentential

namespace Cursor

variable {lexing : Lexing}

/-! ### Runs -/

section Runs

variable {α β : Type} {run : Run α} {moments later : List Moment}

/-- The reading comes to an end with the result, and adds the moments to whatever the record is. -/
def Runs (run : Run α) (moments : List Moment) (result : Except ParseError α) : Prop :=
  ∀ before, run.run.run before = some (result, before ++ moments)

/-- A value is a result by itself. -/
theorem runs_pure (a : α) : Runs (pure a) [] (.ok a) := by
  intro before
  rw [List.append_nil]
  rfl

/-- An error is a result by itself. -/
theorem runs_throw (e : ParseError) : Runs (throw e : Run α) [] (.error e) := by
  intro before
  rw [List.append_nil]
  rfl

/-- A note adds its moment. -/
theorem runs_note (moment : Moment) : Runs (note moment) [moment] (.ok ()) := fun _ ↦ rfl

/-- After a value the reading goes on with it. -/
theorem Runs.bind {a : α} {next : α → Run β} {result : Except ParseError β}
    (h : Runs run moments (.ok a)) (hnext : Runs (next a) later result) :
    Runs (run >>= next) (moments ++ later) result := by
  intro before
  rw [ExceptT.run_bind, StateT.run_bind, h before, ← List.append_assoc]
  exact hnext _

/-- After an error it does not. -/
theorem Runs.bind_error {e : ParseError} (h : Runs run moments (.error e)) (next : α → Run β) :
    Runs (run >>= next) moments (.error e) := by
  intro before
  rw [ExceptT.run_bind, StateT.run_bind, h before]
  rfl

/-- Looking at a cursor gives its entry. -/
theorem runs_look (lexing : Lexing) (cursor : Nat) :
    Runs (look lexing cursor) [.looked cursor] (.ok (lexing.entry cursor)) :=
  (runs_note _).bind (runs_pure _)

/-- An unexpected entry is named in the error. -/
theorem runs_unexpected (lexing : Lexing) (cursor : Nat) (expected : Expectation) :
    Runs (unexpected lexing cursor expected : Run α) [.looked cursor]
      (.error (.unexpected expected (lexing.entry cursor).1 (lexing.entry cursor).2)) :=
  (runs_look lexing cursor).bind (runs_throw _)

/-- An expected entry is taken. -/
theorem runs_expect_of_eq {cursor : Nat} {token : Option Token} (expected : Expectation)
    (h : (lexing.entry cursor).1 = token) :
    Runs (expect lexing cursor token expected) [.looked cursor] (.ok (cursor + 1)) := by
  refine (runs_look lexing cursor).bind ?_
  change Runs (if (lexing.entry cursor).1 = token then _ else _) _ _
  rw [if_pos h]
  exact runs_pure _

/-- Any other entry is an error. -/
theorem runs_expect_of_ne {cursor : Nat} {token : Option Token} (expected : Expectation)
    (h : (lexing.entry cursor).1 ≠ token) :
    Runs (expect lexing cursor token expected) [.looked cursor, .looked cursor]
      (.error (.unexpected expected (lexing.entry cursor).1 (lexing.entry cursor).2)) := by
  refine (runs_look lexing cursor).bind ?_
  change Runs (if (lexing.entry cursor).1 = token then _ else _) _ _
  rw [if_neg h]
  exact runs_unexpected lexing cursor expected

/-- A reading comes to one end only. -/
theorem Runs.unique {result result' : Except ParseError α} (h : Runs run moments result)
    (h' : Runs run later result') : moments = later ∧ result = result' := by
  have hend := Option.some.inj ((h []).symm.trans (h' []))
  exact ⟨congrArg Prod.snd hend, congrArg Prod.fst hend⟩

/-- A call that fails leaves its beginning on record. -/
theorem Runs.ask_error {answer : Run (Nat × Sentence)} {e : ParseError} (call : Call)
    (h : Runs answer moments (.error e)) :
    Runs (ask call answer) (.asked call :: moments) (.error e) :=
  (runs_note _).bind (h.bind_error _)

/-- A call that succeeds leaves its beginning and its answer on record. -/
theorem Runs.ask {answer : Run (Nat × Sentence)} {cursor : Nat} {s : Sentence} (call : Call)
    (h : Runs answer moments (.ok (cursor, s))) :
    Runs (ask call answer) (.asked call :: (moments ++ [.answered call cursor]))
      (.ok (cursor, s)) :=
  (runs_note _).bind (h.bind ((runs_note _).bind (runs_pure _)))

end Runs

/-! ### Order -/

/-- An expression ends where no operator exceeds its power. -/
def Call.StopsAt (lexing : Lexing) : Call → Nat → Prop
  | expression _ power _, cursor => Token.nextBindingPower (lexing.entry cursor).1 ≤ power
  | operand .., _ | operation .., _ => True

/-- Nothing is past the end of the text, and an answer is behind its call, where that one stops. -/
def Moment.IsSafe (lexing : Lexing) : Moment → Prop
  | looked cursor => cursor ≤ lexing.lexemes.length
  | asked call => call.cursor ≤ lexing.lexemes.length
  | answered call cursor =>
    call.cursor < cursor ∧ cursor ≤ lexing.lexemes.length ∧ call.StopsAt lexing cursor

/-- The calls are ranked by their cursors, and at one cursor an expression comes first. -/
def Call.rank (call : Call) : Nat := 2 * call.cursor + if call.isExpression then 0 else 1

/-- Of two calls of one kind, that of higher rank is further on. -/
theorem Call.cursor_lt_of_rank_lt {call call' : Call}
    (hk : call.isExpression = call'.isExpression) (h : call.rank < call'.rank) :
    call.cursor < call'.cursor := by
  rw [rank, rank, hk] at h
  omega

/-- All moments are safe, and the calls begin in ascending order of rank, between two bounds. -/
inductive IsOrderly (lexing : Lexing) (high : Nat) : Nat → List Moment → Prop where
  | nil {low : Nat} : low ≤ high → IsOrderly lexing high low []
  | looked {low cursor : Nat} {moments : List Moment} :
      (Moment.looked cursor).IsSafe lexing → IsOrderly lexing high low moments →
      IsOrderly lexing high low (.looked cursor :: moments)
  | asked {low : Nat} {call : Call} {moments : List Moment} :
      low ≤ call.rank → (Moment.asked call).IsSafe lexing →
      IsOrderly lexing high (call.rank + 1) moments →
      IsOrderly lexing high low (.asked call :: moments)
  | answered {low cursor : Nat} {call : Call} {moments : List Moment} :
      (Moment.answered call cursor).IsSafe lexing → IsOrderly lexing high low moments →
      IsOrderly lexing high low (.answered call cursor :: moments)

namespace IsOrderly

variable {low low' middle high : Nat} {moments later : List Moment}

/-- The lower bound may be lower. -/
theorem mono (h : IsOrderly lexing high low moments) (hle : low' ≤ low) :
    IsOrderly lexing high low' moments := by
  induction h with
  | nil hbound => exact .nil (Nat.le_trans hle hbound)
  | looked hsafe _ ih => exact .looked hsafe (ih hle)
  | asked hrank hsafe hrest _ => exact .asked (Nat.le_trans hle hrank) hsafe hrest
  | answered hsafe _ ih => exact .answered hsafe (ih hle)

/-- What begins where an orderly record ends continues it. -/
theorem append (h : IsOrderly lexing middle low moments)
    (hlater : IsOrderly lexing high middle later) :
    IsOrderly lexing high low (moments ++ later) := by
  induction h with
  | nil hbound => exact hlater.mono hbound
  | looked hsafe _ ih => exact .looked hsafe ih
  | asked hrank hsafe _ ih => exact .asked hrank hsafe ih
  | answered hsafe _ ih => exact .answered hsafe ih

/-- Nothing happens past the end of the text. -/
theorem isSafe (h : IsOrderly lexing high low moments) :
    ∀ moment ∈ moments, moment.IsSafe lexing := by
  induction h with
  | nil _ => exact List.forall_mem_nil _
  | looked hsafe _ ih => exact List.forall_mem_cons.mpr ⟨hsafe, ih⟩
  | asked _ hsafe _ ih => exact List.forall_mem_cons.mpr ⟨hsafe, ih⟩
  | answered hsafe _ ih => exact List.forall_mem_cons.mpr ⟨hsafe, ih⟩

/-- The calls begin in ascending order of rank. -/
theorem calls_ascending (h : IsOrderly lexing high low moments) :
    (calls moments).Pairwise (fun call call' ↦ call.rank < call'.rank) ∧
      ∀ call ∈ calls moments, low ≤ call.rank := by
  induction h with
  | nil _ => exact ⟨List.Pairwise.nil, List.forall_mem_nil _⟩
  | looked _ _ ih => exact ih
  | asked hrank _ _ ih =>
    refine ⟨List.pairwise_cons.mpr ⟨fun later hl ↦ ih.2 later hl, ih.1⟩,
      List.forall_mem_cons.mpr ⟨hrank, fun later hl ↦ ?_⟩⟩
    exact Nat.le_trans hrank (Nat.le_of_succ_le (ih.2 later hl))
  | answered _ _ ih => exact ih

/-- No entry is the place of two calls of one kind. -/
theorem length_filter_calls_le (h : IsOrderly lexing high low moments) (kind : Bool) :
    ((calls moments).filter fun call ↦ call.isExpression == kind).length ≤
      lexing.entries.length := by
  have hkind (call : Call) (hm : call ∈ (calls moments).filter fun call ↦
      call.isExpression == kind) : call.isExpression = kind :=
    beq_iff_eq.mp (List.mem_filter.mp hm).2
  have hdistinct : (((calls moments).filter fun call ↦ call.isExpression == kind).map
      Call.cursor).Nodup := by
    refine List.pairwise_map.mpr ((h.calls_ascending.1.filter _).imp_of_mem fun hc hd hlt ↦ ?_)
    exact Nat.ne_of_lt (Call.cursor_lt_of_rank_lt ((hkind _ hc).trans (hkind _ hd).symm) hlt)
  have hinside : ((calls moments).filter fun call ↦ call.isExpression == kind).map Call.cursor ⊆
      List.range lexing.entries.length := by
    intro cursor hm
    obtain ⟨call, hc, rfl⟩ := List.mem_map.mp hm
    obtain ⟨moment, hmoment, hcall⟩ := List.mem_filterMap.mp (List.mem_filter.mp hc).1
    rw [List.mem_range, Lexing.length_entries]
    cases moment with
    | asked call' =>
      cases hcall
      exact Nat.lt_succ_of_le (h.isSafe _ hmoment)
    | looked _ => cases hcall
    | answered _ _ => cases hcall
  have hlength := (hdistinct.subperm hinside).length_le
  rwa [List.length_map, List.length_range] at hlength

end IsOrderly

end Cursor

end Sentential

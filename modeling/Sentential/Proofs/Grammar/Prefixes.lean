import Sentential.Proofs.Parser.Acceptance
import Sentential.Proofs.Parser.Descent

/-!
# What the scan accepts

The scan with pending limits runs over exactly the tokens that can be continued to an expression,
and is complete after exactly those of an expression. Given enough levels, reading an expression
says the same, so this follows from what the reading accepts.
-/

namespace Sentential

open Grammar

/-- The tokens of a tree are words. -/
theorem Grammar.Tree.isWord_of_mem_yield {t : Tree} : ∀ token ∈ t.yield, token.IsWord := by
  induction t with
  | label v => exact List.forall_mem_singleton.mpr v.isLabel_label
  | grouped inner ih =>
    rw [yield, List.cons_append, List.forall_mem_cons, List.forall_mem_append]
    exact ⟨trivial, ih, List.forall_mem_singleton.mpr trivial⟩
  | negated target ih =>
    rw [yield, List.forall_mem_cons]
    exact ⟨trivial, ih⟩
  | joined c left right ihl ihr =>
    rw [yield, List.forall_mem_append, List.forall_mem_cons]
    exact ⟨ihl, trivial, ihr⟩

namespace Pending

open Sentential.Parser

/-- Some tokens as lexemes whose places do not matter. -/
def unplaced (tokens : List Token) : List Lexeme := tokens.map fun token ↦ ⟨token, 0⟩

/-- The tokens are there again. -/
@[simp] theorem map_token_unplaced (tokens : List Token) :
    (unplaced tokens).map Lexeme.token = tokens := by
  rw [unplaced, List.map_map]
  exact List.map_id tokens

/-- Words stay words. -/
theorem areWords_unplaced {tokens : List Token} (hw : ∀ token ∈ tokens, token.IsWord) :
    AreWords (unplaced tokens) := by
  intro lexeme hm
  apply hw
  rw [← map_token_unplaced tokens]
  exact List.mem_map_of_mem hm

/-- Where no parenthesis is open and nothing binds, only the end may follow. -/
theorem not_admits_of_nextPower {lexemes : List Lexeme} (h : nextPower lexemes ≤ 0)
    (hne : lexemes ≠ []) : ¬State.Admits ⟨.operator, [.power 0]⟩ (next lexemes) := by
  rw [admits_operator_iff_of_le h]
  rintro (⟨-, hopen⟩ | ⟨hend, -⟩)
  · simp at hopen
  · exact hne (next_eq_none_iff.mp hend)

/-- With room for as many levels as are read, the scan of an expression is its reading. -/
theorem firstError?_start (levels finish : Nat) {lexemes : List Lexeme} (hw : AreWords lexemes) :
    firstError? levels finish start lexemes =
      errorAfter levels finish [.power 0] (expression finish levels 0 lexemes) :=
  follows_expression finish (Nat.add_zero levels) (.power 0) hw

/-- A scan reaches what it runs to, if there is room for all tokens. -/
theorem State.reaches_of_run? {room : Nat} {state later : State} {tokens : List Token}
    (h : state.run? tokens = some later) (hroom : state.limits.length + tokens.length ≤ room) :
    state.Reaches room tokens later := by
  refine ⟨h, fun i hi earlier he hdeep ↦ ?_⟩
  have hlength := length_limits_of_run? he
  have hmore := hdeep.2
  rw [List.length_take] at hlength
  omega

/-- The scan is complete after the tokens of an expression. -/
theorem exists_run?_of_derivable {tokens : List Token} (h : Derivable tokens) :
    ∃ later, start.run? tokens = some later ∧ later.IsComplete := by
  obtain ⟨t, ht, rfl⟩ := h
  have hw := areWords_unplaced t.isWord_of_mem_yield
  have hb : BeginsWith t (unplaced t.yield) [] :=
    ⟨unplaced t.yield, (List.append_nil _).symm, map_token_unplaced t.yield⟩
  obtain ⟨p, -, hr, hp⟩ := ((isRead_of_isFormed 0 (Tree.isA_expression_iff.mp ht)).expression
    (t.nesting + 1) hb t.exceeds_zero t.endsBefore_zero (Nat.le_refl 0)).1 (Nat.lt_succ_self _)
  have hnone : firstError? (t.nesting + 1) 0 start (unplaced t.yield) = none := by
    rw [firstError?_start _ _ hw, hp, errorAfter, hr]
    rfl
  obtain ⟨later, hreach, hcomplete⟩ := firstError?_eq_none_iff.mp hnone
  rw [map_token_unplaced] at hreach
  exact ⟨later, hreach.1, hcomplete⟩

/-- Words after which the scan is complete are those of an expression. -/
theorem derivable_of_run? {tokens : List Token} {later : State}
    (hw : ∀ token ∈ tokens, token.IsWord) (h : start.run? tokens = some later)
    (hcomplete : later.IsComplete) : Derivable tokens := by
  -- no scan needs more room than this
  let room := start.limits.length + tokens.length
  have hnone : firstError? room 0 start (unplaced tokens) = none := by
    rw [firstError?_eq_none_iff, map_token_unplaced]
    exact ⟨later, State.reaches_of_run? h (Nat.le_refl _), hcomplete⟩
  rw [firstError?_start _ _ (areWords_unplaced hw)] at hnone
  cases hp : expression 0 room 0 (unplaced tokens) with
  | error e =>
    rw [hp] at hnone
    cases hnone
  | ok p =>
    rw [hp, errorAfter] at hnone
    obtain ⟨hnext, t, hread, -⟩ := isSound_expression 0 _ hp
    have hrest : p.rest = [] := by
      apply Classical.byContradiction
      intro hne
      have hnot := not_admits_of_nextPower hnext hne
      rw [firstError?_operator_of_not_admits hnext hnot] at hnone
      cases hnone
    obtain ⟨first, hfirst, hyield⟩ := hread.beginsWith
    rw [hrest, List.append_nil] at hfirst
    refine ⟨t, Tree.isA_expression_iff.mpr hread.isFormed, ?_⟩
    rw [← hyield, ← hfirst, map_token_unplaced]

/-- As many closing parentheses as are open close all of them. -/
theorem exists_run?_closing (limits : List Limit) :
    ∃ outer, State.run? ⟨.operator, limits⟩
      (List.replicate (limits.count .group) .rightParenthesis) = some ⟨.operator, outer⟩ ∧
        .group ∉ outer := by
  induction hn : limits.count .group generalizing limits with
  | zero => exact ⟨limits, rfl, List.count_eq_zero.mp hn⟩
  | succ n ih =>
    have hmem : .group ∈ limits := List.count_pos_iff.mp (by omega)
    obtain ⟨inner, hleave⟩ := Option.isSome_iff_exists.mp (isSome_leaveGroup?.mpr hmem)
    have hcount := (leaveGroup?_eq_some hleave).1
    obtain ⟨outer, hrun, hclosed⟩ := ih inner (by omega)
    have hstep : step? ⟨.operator, limits⟩ .rightParenthesis = some ⟨.operator, inner⟩ := by
      change (leaveGroup? limits).map _ = _
      rw [hleave]
      rfl
    refine ⟨outer, ?_, hclosed⟩
    rw [List.replicate_succ, State.run?_cons, hstep]
    exact hrun

/-- Every scan can be completed: by a label where an operand is due, and closing parentheses. -/
theorem exists_completion (state : State) :
    ∃ more, (∀ token ∈ more, token.IsWord) ∧
      ∃ later, state.run? more = some later ∧ later.IsComplete := by
  obtain ⟨place, limits⟩ := state
  obtain ⟨outer, hrun, hclosed⟩ := exists_run?_closing limits
  have hw : ∀ token ∈ List.replicate (limits.count .group) Token.rightParenthesis,
      token.IsWord := by
    intro token hm
    rw [List.eq_of_mem_replicate hm]
    trivial
  cases place with
  | operand =>
    have ha : isLabel "a".toList = true := by decide
    refine ⟨.label "a" :: List.replicate (limits.count .group) .rightParenthesis, ?_,
      ⟨.operator, outer⟩, ?_, rfl, hclosed⟩
    · rw [List.forall_mem_cons]
      exact ⟨ha, hw⟩
    · rw [State.run?_cons]
      exact hrun
  | operator => exact ⟨_, hw, _, hrun, rfl, hclosed⟩

/-- Words can be continued to an expression exactly if the scan runs over them. -/
theorem viable_iff {tokens : List Token} (hw : ∀ token ∈ tokens, token.IsWord) :
    Viable tokens ↔ ∃ state, start.run? tokens = some state := by
  constructor
  · rintro ⟨more, h⟩
    obtain ⟨later, hrun, -⟩ := exists_run?_of_derivable h
    rw [State.run?_append, Option.bind_eq_some_iff] at hrun
    obtain ⟨state, hstate, -⟩ := hrun
    exact ⟨state, hstate⟩
  · rintro ⟨state, hstate⟩
    obtain ⟨more, hmore, later, hrun, hcomplete⟩ := exists_completion state
    refine ⟨more, derivable_of_run? (List.forall_mem_append.mpr ⟨hw, hmore⟩) ?_ hcomplete⟩
    rw [State.run?_append, hstate, Option.bind_some, hrun]

/-- Words are those of an expression exactly if the scan is complete after them. -/
theorem derivable_iff {tokens : List Token} (hw : ∀ token ∈ tokens, token.IsWord) :
    Derivable tokens ↔ ∃ later, start.run? tokens = some later ∧ later.IsComplete := by
  constructor
  · exact exists_run?_of_derivable
  · rintro ⟨later, hrun, hcomplete⟩
    exact derivable_of_run? hw hrun hcomplete

end Pending

end Sentential

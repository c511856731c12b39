import Sentential.Sentence.Parser

/-!
# Reading at a cursor

The reading of sentences with the tokens kept in their places. A cursor says where the next token
is, and the end of the text is an entry of its own after all tokens. Depth is counted from the
outside. A record is kept of the entries that are looked at, of the calls and of the answers.
Nothing in these definitions keeps the cursor within the text. The reading is allowed so many steps
from one expression into the next and so many operators in each, after which it is given up without
a result, so that it remains to be proved that as many steps as there are tokens are enough.
-/

namespace Sentential

namespace Lexing

/-- The tokens with their places, and the end of the text as the last entry. -/
def entries (l : Lexing) : List (Option Token × Nat) :=
  l.lexemes.map (fun lexeme ↦ (some lexeme.token, lexeme.position)) ++ [(none, l.finish)]

/-- There is one entry more than there are tokens. -/
@[simp] theorem length_entries (l : Lexing) : l.entries.length = l.lexemes.length + 1 := by
  simp [entries]

/-- The entry at a cursor; past the last entry, the last one. -/
def entry (l : Lexing) (cursor : Nat) : Option Token × Nat :=
  l.entries.get ⟨min cursor (l.entries.length - 1), by rw [length_entries]; omega⟩

end Lexing

namespace Cursor

/-- Something that is asked for at a cursor. -/
inductive Call where
  /-- An expression whose operators exceed the given power. -/
  | expression (cursor power depth : Nat)
  /-- An operand. -/
  | operand (cursor depth : Nat)
  /-- An operator and its right operand, after the given left operand. -/
  | operation (cursor depth : Nat) (left : Sentence)

/-- Where it is asked for. -/
def Call.cursor : Call → Nat
  | expression cursor _ _ | operand cursor _ | operation cursor _ _ => cursor

/-- Whether an expression is asked for. -/
def Call.isExpression : Call → Bool
  | expression .. => true
  | operand .. | operation .. => false

/-- Something that happens during a reading. -/
inductive Moment where
  /-- The entry at a cursor is looked at. -/
  | looked (cursor : Nat)
  /-- A call begins. -/
  | asked (call : Call)
  /-- A call succeeds and leaves the cursor there. -/
  | answered (call : Call) (cursor : Nat)

/-- The calls of a record, in the order in which they begin. -/
def calls (moments : List Moment) : List Call :=
  moments.filterMap fun
    | .asked call => some call
    | _ => none

/-- A reading that may fail and that keeps a record of what happens, also where it fails; it may
have been given up. -/
abbrev Run := ExceptT ParseError (StateT (List Moment) Option)

/-- Give up for want of steps. -/
def giveUp {α : Type} : Run α := ExceptT.mk fun _ ↦ none

/-- Add to the record. -/
def note (moment : Moment) : Run Unit := modify fun moments ↦ moments ++ [moment]

/-- Look at the entry at a cursor. -/
def look (lexing : Lexing) (cursor : Nat) : Run (Option Token × Nat) := do
  note (.looked cursor)
  return lexing.entry cursor

/-- Fail with the error that something else is at the cursor. -/
def unexpected {α : Type} (lexing : Lexing) (cursor : Nat) (expected : Expectation) : Run α := do
  let (found, position) ← look lexing cursor
  throw (.unexpected expected found position)

/-- Take the given token, or the end of the text, and move the cursor on. -/
def expect (lexing : Lexing) (cursor : Nat) (token : Option Token) (expected : Expectation) :
    Run Nat := do
  let (found, _) ← look lexing cursor
  if found = token then return cursor + 1
  else unexpected lexing cursor expected

/-- Put a call on record when it begins, and its answer when it succeeds. -/
def ask (call : Call) (answer : Run (Nat × Sentence)) : Run (Nat × Sentence) := do
  note (.asked call)
  let (cursor, sentence) ← answer
  note (.answered call cursor)
  return (cursor, sentence)

/-- A reader of expressions: it is told the cursor, the binding power that an operator has to
exceed, and the depth. The answer is the cursor after the expression and its sentence. -/
abbrev ExpressionReader := (cursor power depth : Nat) → Run (Nat × Sentence)

/-- Ask a reader for an expression. -/
def askExpression (inner : ExpressionReader) : ExpressionReader := fun cursor power depth ↦
  ask (.expression cursor power depth) (inner cursor power depth)

/-- Take a label at the cursor. -/
def atom (cursor : Nat) (label : String) : Run (Nat × Sentence) :=
  match Variable.ofLabel label with
  | .ok v => return (cursor + 1, .atom v)
  | .error e => throw (.label e)

/-- Read an operand; the expression in it is read by a given reader. -/
def operand (inner : ExpressionReader) (lexing : Lexing) (cursor depth : Nat) :
    Run (Nat × Sentence) := do
  let (token, _) ← look lexing cursor
  match token with
  | some (.label label) => atom cursor label
  | some .negation =>
    let (cursor, target) ←
      askExpression inner (cursor + 1) Token.negation.bindingPower (depth + 1)
    return (cursor, .negation target)
  | some .leftParenthesis =>
    let (cursor, content) ← askExpression inner (cursor + 1) 0 (depth + 1)
    let cursor ← expect lexing cursor (some .rightParenthesis) .closing
    return (cursor, content)
  | _ => unexpected lexing cursor .operand

/-- Read an operator and its right operand after the given left operand. -/
def operation (inner : ExpressionReader) (lexing : Lexing) (cursor depth : Nat) (left : Sentence) :
    Run (Nat × Sentence) := do
  let (token, _) ← look lexing cursor
  match token with
  | some (.connective c) =>
    let (cursor, right) ← askExpression inner (cursor + 1) c.bindingPower (depth + 1)
    return (cursor, .binary c left right)
  | _ => unexpected lexing cursor .operator

/-- Read on after a left operand while the entry at the cursor binds tighter than the given
power. -/
def operators (inner : ExpressionReader) (lexing : Lexing) (power depth steps cursor : Nat)
    (left : Sentence) : Run (Nat × Sentence) :=
  match steps with
  | 0 => giveUp
  | steps + 1 => do
    let (token, _) ← look lexing cursor
    if power < Token.nextBindingPower token then
      let (cursor, left) ←
        ask (.operation cursor depth left) (operation inner lexing cursor depth left)
      operators inner lexing power depth steps cursor left
    else return (cursor, left)

/-- Read an expression. -/
def expression (lexing : Lexing) (steps : Nat) : ExpressionReader := fun cursor power depth ↦
  match steps with
  | 0 => giveUp
  | steps + 1 => do
    if maxNesting < depth then
      let (_, position) ← look lexing cursor
      throw (.tooDeep maxNesting position)
    else
      let (cursor, left) ←
        ask (.operand cursor depth) (operand (expression lexing steps) lexing cursor depth)
      operators (expression lexing steps) lexing power depth steps cursor left

/-- Read all tokens of a text as one sentence. -/
def sentence (lexing : Lexing) (steps : Nat) : Run Sentence :=
  if lexing.lexemes.isEmpty then throw .empty
  else do
    let (cursor, whole) ← askExpression (expression lexing steps) 0 0 0
    let _ ← expect lexing cursor none .finish
    return whole

/-- The result of reading all tokens of a text, with the record; nothing if the reading is given
up. -/
def read (lexing : Lexing) (steps : Nat) : Option (Except ParseError Sentence × List Moment) :=
  (sentence lexing steps).run.run []

end Cursor

end Sentential

namespace RegisterMachine

/-- Input tokens, if any were provided, and how many of them have been consumed. -/
structure Tape where
  tokens : Option (Array String) := none
  cursor : Nat := 0
  deriving DecidableEq, Repr

namespace Tape

/-- No input provided. -/
def blank : Tape := {}

/-- A tape of tokens, none of them consumed. -/
def ofList (tokens : List String) : Tape where
  tokens := some tokens.toArray

def provided (tape : Tape) : Bool :=
  tape.tokens.isSome

/-- The next token to be consumed. -/
def peek (tape : Tape) : Option String :=
  tape.tokens.bind fun tokens => tokens[tape.cursor]?

def advance (tape : Tape) : Tape :=
  { tape with cursor := tape.cursor + 1 }

/-- How many tokens are still to be consumed. -/
def remaining (tape : Tape) : Nat :=
  match tape.tokens with
  | none => 0
  | some tokens => tokens.size - tape.cursor

/-- The tokens that are still to be consumed. -/
def rest (tape : Tape) : List String :=
  (tape.tokens.getD #[]).toList.drop tape.cursor

theorem peek_eq_head? (tape : Tape) : tape.peek = tape.rest.head? := by
  cases h : tape.tokens <;> simp [peek, rest, h]

theorem rest_advance (tape : Tape) : tape.advance.rest = tape.rest.tail := by
  simp [rest, advance]

theorem rest_ofList (tokens : List String) : (ofList tokens).rest = tokens := by
  simp [rest, ofList]

end Tape

end RegisterMachine

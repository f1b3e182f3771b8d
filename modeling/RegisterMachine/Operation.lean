import RegisterMachine.Text.Integer

namespace RegisterMachine

/-- How a numeric operand is meant: the value itself, a register's number, or the number of a
register that holds a register's number. -/
inductive Mode where
  | direct
  | registry
  | pointer
  deriving DecidableEq, Repr

def Mode.name : Mode → String
  | .direct => "direct"
  | .registry => "registry"
  | .pointer => "pointer"

/-- What stands before the number of an operand in this mode. -/
def Mode.sigil : Mode → String
  | .direct => "="
  | .registry => ""
  | .pointer => "*"

/-- What an operation means: its opcode as the table declares it, its label and its operand.
The mode says something only together with a value. -/
structure Instruction where
  opcode : String
  label : Option String := none
  value : Option Int64 := none
  mode : Mode := .registry
  target : Option String := none
  deriving DecidableEq, Repr

/-- An instruction with the text and the line it was read from. -/
structure Operation extends Instruction where
  raw : String
  line : Nat
  deriving DecidableEq, Repr

/-- An operation as messages show it. -/
def Operation.text (operation : Operation) : String :=
  Text.natural operation.line ++ ": " ++ operation.raw

end RegisterMachine

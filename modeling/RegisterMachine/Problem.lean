import RegisterMachine.Fault
import RegisterMachine.Operation
import RegisterMachine.Text.Basic

namespace RegisterMachine

/-- The things that can be wrong with settings, a machine's description, a line of source or a
step, each with the particulars that its message and notes show. -/
inductive Problem where
  | malformedSettings (reason : String)
  | clashingMarker (marker : Char)
  | invalidMnemonic (mnemonic : String)
  | sigilMnemonic (mnemonic : String)
  | labelAndNumber (mnemonic : String)
  | modesWithoutNumber (mnemonic : String)
  | duplicateOpcode (mnemonic : String)
  | emptyLine
  | emptyLabel
  | unknownOpcode (mnemonic : String)
  | missingJumpLabel (mnemonic : String)
  | tooManyArguments (mnemonic : String) (found : Nat)
  | unexpectedParameter (mnemonic : String)
  | missingParameter (mnemonic : String)
  | modeNotAllowed (mnemonic : String) (mode : Mode)
  | nonNumericArgument (argument : String) (fault : Text.IntegerFault)
  | negativeRegister (value : Int64)
  | directDestination
  | missingOperand
  | invalidOpcode (mnemonic : String)
  | labelNotFound (label : String)
  | divisionByZero
  | arithmeticOverflow (symbol : String) (left right : Int64)
  | inputExhausted (consumed : Nat)
  | invalidInput (token : String) (fault : Text.IntegerFault)
  | pointerOutOfRange (pointer : Int64) (length : Nat)
  | stepLimitExceeded (limit : UInt64)
  deriving DecidableEq, Repr

namespace Problem

def kind : Problem → Fault.Kind
  | malformedSettings _ => .serializationFailed
  | clashingMarker _ | invalidMnemonic _ | sigilMnemonic _ | labelAndNumber _
  | modesWithoutNumber _ => .configInvalid
  | duplicateOpcode _ => .duplicateOpcode
  | emptyLine | emptyLabel => .parseFailed
  | unknownOpcode _ => .unknownOpcode
  | missingJumpLabel _ | tooManyArguments _ _ | unexpectedParameter _ | missingParameter _
  | nonNumericArgument _ _ | directDestination => .invalidOperand
  | modeNotAllowed _ _ => .addressingModeNotAllowed
  | negativeRegister _ => .negativeRegister
  | missingOperand => .missingOperand
  | invalidOpcode _ => .invalidOpcode
  | labelNotFound _ => .labelNotFound
  | divisionByZero => .divisionByZero
  | arithmeticOverflow _ _ _ => .arithmeticOverflow
  | inputExhausted _ => .inputExhausted
  | invalidInput _ _ => .invalidInput
  | pointerOutOfRange _ _ => .instructionPointerOutOfRange
  | stepLimitExceeded _ => .stepLimitExceeded

def message : Problem → String
  | malformedSettings reason => "invalid config: " ++ reason
  | clashingMarker c => "comment marker " ++ Text.shown c ++ " clashes with program syntax"
  | invalidMnemonic m => "invalid mnemonic '" ++ m ++ "'"
  | sigilMnemonic m => "mnemonic '" ++ m ++ "' starts with an addressing sigil"
  | labelAndNumber m => m ++ " cannot take both a jump label and a numeric argument"
  | modesWithoutNumber m => m ++ " allows addressing modes but takes no numeric argument"
  | duplicateOpcode m => "duplicate definition for '" ++ m ++ "'"
  | emptyLine => "empty line"
  | emptyLabel => "empty label"
  | unknownOpcode m | invalidOpcode m => "unknown operation: " ++ m
  | missingJumpLabel m => "operation " ++ m ++ " requires a target label"
  | tooManyArguments m _ => "too many arguments for " ++ m
  | unexpectedParameter m => "operation " ++ m ++ " takes no parameter"
  | missingParameter m => "operation " ++ m ++ " requires a parameter"
  | modeNotAllowed m mode => "operation " ++ m ++ " does not allow " ++ mode.name ++ " operands"
  | nonNumericArgument argument _ => "non-numeric argument '" ++ argument ++ "'"
  | negativeRegister v => "attempted to access negative register " ++ Text.decimal v.toInt
  | directDestination => "direct value not allowed for operation"
  | missingOperand => "missing value for operation"
  | labelNotFound label => "label '" ++ label ++ "' not found"
  | divisionByZero => "attempted to divide by zero"
  | arithmeticOverflow symbol left right =>
    Text.decimal left.toInt ++ " " ++ symbol ++ " " ++ Text.decimal right.toInt ++
      " overflows the accumulator"
  | inputExhausted _ => "no inputs left for operation"
  | invalidInput token _ => "non-numeric input '" ++ token ++ "'"
  | pointerOutOfRange pointer _ =>
    "no operation at instruction pointer " ++ Text.decimal pointer.toInt
  | stepLimitExceeded limit => "step limit " ++ Text.natural limit.toNat ++ " exceeded"

def notes : Problem → List (String × String)
  | invalidMnemonic m | sigilMnemonic m | labelAndNumber m | modesWithoutNumber m
  | duplicateOpcode m | unknownOpcode m | missingJumpLabel m | unexpectedParameter m
  | missingParameter m | invalidOpcode m => [("mnemonic", m)]
  | tooManyArguments m found => [("mnemonic", m), ("found", Text.natural found)]
  | modeNotAllowed m mode => [("mnemonic", m), ("mode", mode.name)]
  | nonNumericArgument argument _ => [("argument", argument)]
  | negativeRegister v => [("register", Text.decimal v.toInt)]
  | labelNotFound label => [("label", label)]
  | inputExhausted consumed => [("consumed", Text.natural consumed)]
  | invalidInput token _ => [("input", token)]
  | pointerOutOfRange pointer length =>
    [("pointer", Text.decimal pointer.toInt), ("program_len", Text.natural length)]
  | stepLimitExceeded limit => [("max_steps", Text.natural limit.toNat)]
  | malformedSettings _ | clashingMarker _ | emptyLine | emptyLabel | directDestination
  | missingOperand | divisionByZero | arithmeticOverflow _ _ _ => []

def cause : Problem → Option Fault.Cause
  | malformedSettings reason => some (.document reason)
  | nonNumericArgument _ fault | invalidInput _ fault => some (.integer fault)
  | _ => none

/-- The fault that reports a problem, before any part has named itself as its origin. -/
def fault (problem : Problem) : Fault where
  kind := problem.kind
  message := problem.message
  tier := problem.kind.tier
  origin := ""
  notes := problem.notes
  cause := problem.cause

end Problem

/-- Notes the operation at which a fault arose, unless one is noted already. -/
def Fault.atOperation (fault : Fault) (operation : Operation) : Fault :=
  match fault.note? "operation" with
  | some _ => fault
  | none =>
    (fault.noting "line" (Text.natural operation.line)).noting "operation" operation.text

end RegisterMachine

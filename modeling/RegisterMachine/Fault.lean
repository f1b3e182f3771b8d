import RegisterMachine.Text.Integer

namespace RegisterMachine

/-- The stage to which a failure belongs. -/
inductive Fault.Tier where
  | configuration
  | load
  | runtime
  | host
  deriving DecidableEq, Repr

def Fault.Tier.name : Fault.Tier → String
  | .configuration => "configuration"
  | .load => "load"
  | .runtime => "runtime"
  | .host => "host"

def Fault.Tier.isRuntime (tier : Fault.Tier) : Bool :=
  tier == .runtime

/-- The program at hand is to blame, not the machine or its host. -/
def Fault.Tier.blamesProgram : Fault.Tier → Bool
  | .load | .runtime => true
  | .configuration | .host => false

/-- What went wrong, without its particulars. -/
inductive Fault.Kind where
  | unexpected
  | configInvalid
  | duplicateOpcode
  | parseFailed
  | unknownOpcode
  | invalidOperand
  | addressingModeNotAllowed
  | negativeRegister
  | invalidOpcode
  | missingOperand
  | labelNotFound
  | divisionByZero
  | arithmeticOverflow
  | inputExhausted
  | invalidInput
  | instructionPointerOutOfRange
  | stepLimitExceeded
  | fileNotFound
  | ioFailed
  | serializationFailed
  deriving DecidableEq, Repr

namespace Fault.Kind

def name : Kind → String
  | unexpected => "Unexpected"
  | configInvalid => "ConfigInvalid"
  | duplicateOpcode => "DuplicateOpcode"
  | parseFailed => "ParseFailed"
  | unknownOpcode => "UnknownOpcode"
  | invalidOperand => "InvalidOperand"
  | addressingModeNotAllowed => "AddressingModeNotAllowed"
  | negativeRegister => "NegativeRegister"
  | invalidOpcode => "InvalidOpcode"
  | missingOperand => "MissingOperand"
  | labelNotFound => "LabelNotFound"
  | divisionByZero => "DivisionByZero"
  | arithmeticOverflow => "ArithmeticOverflow"
  | inputExhausted => "InputExhausted"
  | invalidInput => "InvalidInput"
  | instructionPointerOutOfRange => "InstructionPointerOutOfRange"
  | stepLimitExceeded => "StepLimitExceeded"
  | fileNotFound => "FileNotFound"
  | ioFailed => "IoFailed"
  | serializationFailed => "SerializationFailed"

/-- Every kind, in declaration order. -/
def all : List Kind :=
  [unexpected, configInvalid, duplicateOpcode, parseFailed, unknownOpcode, invalidOperand,
    addressingModeNotAllowed, negativeRegister, invalidOpcode, missingOperand, labelNotFound,
    divisionByZero, arithmeticOverflow, inputExhausted, invalidInput,
    instructionPointerOutOfRange, stepLimitExceeded, fileNotFound, ioFailed,
    serializationFailed]

/-- The tier of a fault of this kind, unless the fault is moved to another. -/
def tier : Kind → Tier
  | configInvalid | duplicateOpcode => .configuration
  | parseFailed | unknownOpcode | invalidOperand | addressingModeNotAllowed => .load
  | negativeRegister | invalidOpcode | missingOperand | labelNotFound | divisionByZero
  | arithmeticOverflow | inputExhausted | invalidInput | instructionPointerOutOfRange
  | stepLimitExceeded => .runtime
  | unexpected | fileNotFound | ioFailed | serializationFailed => .host

end Fault.Kind

/-- A failure outside the machine that a fault goes back to. -/
inductive Fault.Cause where
  | integer (fault : Text.IntegerFault)
  | host (text : String)
  | document (text : String)
  deriving DecidableEq, Repr

def Fault.Cause.text : Fault.Cause → String
  | .integer fault => fault.message
  | .host text => text
  | .document text => text

/-- A failure as it is handed to callers: its kind, a message, the part that raised it and
notes in the order in which they were made. An empty `origin` names no part. -/
structure Fault where
  kind : Fault.Kind
  message : String
  tier : Fault.Tier
  origin : String
  notes : List (String × String)
  cause : Option Fault.Cause
  deriving DecidableEq, Repr

namespace Fault

def ofKind (kind : Kind) (message : String) : Fault where
  kind := kind
  message := message
  tier := kind.tier
  origin := ""
  notes := []
  cause := none

def inTier (fault : Fault) (tier : Tier) : Fault :=
  { fault with tier := tier }

def noting (fault : Fault) (key value : String) : Fault :=
  { fault with notes := fault.notes ++ [(key, value)] }

def because (fault : Fault) (cause : Cause) : Fault :=
  { fault with cause := some cause }

/-- Names the part that raised the fault; a part named before is noted as called. -/
def raisedIn (fault : Fault) (origin : String) : Fault :=
  if fault.origin = "" then { fault with origin := origin }
  else { fault.noting "called" fault.origin with origin := origin }

/-- The first value noted under a key. -/
def note? (fault : Fault) (key : String) : Option String :=
  fault.notes.lookup key

@[simp] theorem kind_raisedIn (fault : Fault) (origin : String) :
    (fault.raisedIn origin).kind = fault.kind := by
  unfold raisedIn; split <;> rfl

@[simp] theorem message_raisedIn (fault : Fault) (origin : String) :
    (fault.raisedIn origin).message = fault.message := by
  unfold raisedIn; split <;> rfl

@[simp] theorem tier_raisedIn (fault : Fault) (origin : String) :
    (fault.raisedIn origin).tier = fault.tier := by
  unfold raisedIn; split <;> rfl

@[simp] theorem cause_raisedIn (fault : Fault) (origin : String) :
    (fault.raisedIn origin).cause = fault.cause := by
  unfold raisedIn; split <;> rfl

@[simp] theorem origin_raisedIn (fault : Fault) (origin : String) :
    (fault.raisedIn origin).origin = origin := by
  unfold raisedIn; split <;> rfl

theorem notes_raisedIn (fault : Fault) (origin : String) :
    (fault.raisedIn origin).notes =
      fault.notes ++ if fault.origin = "" then [] else [("called", fault.origin)] := by
  unfold raisedIn; split <;> simp [noting]

/-- A note does not hide an earlier one under the same key. -/
theorem note?_noting (fault : Fault) (key value k : String) :
    (fault.noting key value).note? k =
      (fault.note? k).or (if k = key then some value else none) := by
  simp only [note?, noting, List.lookup_append, List.lookup_cons, List.lookup_nil]
  by_cases h : k = key
  · simp [h]
  · simp [h, beq_eq_false_iff_ne.mpr h]

/-- The fault in one line. -/
def summary (fault : Fault) : String :=
  let head := fault.kind.name ++ " (" ++ fault.tier.name ++ ")"
  let place := if fault.origin = "" then "" else " at " ++ fault.origin
  let entries := fault.notes.map fun (key, value) => key ++ ": " ++ value
  let notes :=
    if entries.isEmpty then ""
    else ", context \x7b " ++ String.intercalate ", " entries ++ " \x7d"
  let message := if fault.message = "" then "" else " => " ++ fault.message
  head ++ place ++ notes ++ message

/-- The fault in full, one block for each part that is present. -/
def report (fault : Fault) : String :=
  let head := fault.kind.name ++ " (" ++ fault.tier.name ++ ") at " ++ fault.origin ++ "\n"
  let message :=
    if fault.message = "" then "" else "\n    Message: " ++ fault.message ++ "\n"
  let entries := fault.notes.map fun (key, value) => "        " ++ key ++ ": " ++ value ++ "\n"
  let notes := if entries.isEmpty then "" else "\n    Context:\n" ++ String.join entries
  let cause :=
    match fault.cause with
    | none => ""
    | some cause => "\n    Source: " ++ cause.text ++ "\n"
  head ++ message ++ notes ++ cause

end Fault

/-- A failure reported by the host when a file is read; `absent` says that there is no such file. -/
structure HostFailure where
  absent : Bool
  text : String
  deriving DecidableEq, Repr

def HostFailure.fault (failure : HostFailure) : Fault :=
  ((Fault.ofKind (if failure.absent then .fileNotFound else .ioFailed) failure.text).raisedIn
    "io").because (.host failure.text)

end RegisterMachine

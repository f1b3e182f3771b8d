import RegisterMachine.Json.Writer
import RegisterMachine.Problem
import RegisterMachine.Text.Basic

namespace RegisterMachine

/-- What an opcode is called and which operand it takes. -/
structure Descriptor where
  mnemonic : String
  description : String := ""
  takesNumber : Bool := false
  allowsDirect : Bool := false
  allowsPointer : Bool := false
  takesLabel : Bool := false
  deriving DecidableEq, Repr

namespace Descriptor

/-- An opcode with one numeric operand; it may always name a register. -/
def numeric (mnemonic : String) (direct pointer : Bool) : Descriptor where
  mnemonic := mnemonic
  takesNumber := true
  allowsDirect := direct
  allowsPointer := pointer

/-- An opcode whose operand is the label of the operation to go to. -/
def jump (mnemonic : String) : Descriptor where
  mnemonic := mnemonic
  takesLabel := true

/-- An opcode without an operand. -/
def bare (mnemonic : String) : Descriptor where
  mnemonic := mnemonic

def described (descriptor : Descriptor) (description : String) : Descriptor :=
  { descriptor with description := description }

/-- The same operand under another name. -/
def renamed (descriptor : Descriptor) (mnemonic : String) : Descriptor :=
  { descriptor with mnemonic := mnemonic }

def allows (descriptor : Descriptor) : Mode → Bool
  | .direct => descriptor.allowsDirect
  | .registry => descriptor.takesNumber
  | .pointer => descriptor.allowsPointer

/-- The first rule that a descriptor breaks: its mnemonic is one word and starts with no sigil,
its operand is not both label and number, and modes belong to a number. -/
def flaw? (descriptor : Descriptor) : Option Problem :=
  let letters := descriptor.mnemonic.toList
  if letters.isEmpty || letters.any Text.isBlank then
    some (.invalidMnemonic descriptor.mnemonic)
  else if letters.head? = some '*' || letters.head? = some '=' then
    some (.sigilMnemonic descriptor.mnemonic)
  else if descriptor.takesLabel && descriptor.takesNumber then
    some (.labelAndNumber descriptor.mnemonic)
  else if !descriptor.takesNumber && (descriptor.allowsDirect || descriptor.allowsPointer) then
    some (.modesWithoutNumber descriptor.mnemonic)
  else none

/-- The members of the descriptor's document, in their fixed order. -/
def members (descriptor : Descriptor) : List (String × String) :=
  [("mnemonic", Json.quote descriptor.mnemonic),
    ("description", Json.quote descriptor.description),
    ("requires_numeric_argument", Json.ofBool descriptor.takesNumber),
    ("allow_direct", Json.ofBool descriptor.allowsDirect),
    ("allow_pointer", Json.ofBool descriptor.allowsPointer),
    ("requires_jump_label", Json.ofBool descriptor.takesLabel)]

def toJson (descriptor : Descriptor) : String :=
  Json.object descriptor.members

end Descriptor

end RegisterMachine

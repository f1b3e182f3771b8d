import RegisterMachine.OpcodeTable

namespace RegisterMachine.Source

/-- The part of a line before its first comment marker, without blanks at its ends. -/
def stripComment (marker : Char) (line : String) : String :=
  String.ofList (Text.trimBlanks (line.toList.takeWhile (· != marker)))

/-- The mode that the first character of an operand stands for, and what follows it. -/
def splitSigil (argument : String) : Mode × String :=
  match argument.toList with
  | '*' :: digits => (.pointer, String.ofList digits)
  | '=' :: digits => (.direct, String.ofList digits)
  | _ => (.registry, argument)

/-- Reads a numeric operand: the mode has to be allowed, the number a 64-bit integer, and the
number of a register not negative. -/
def readNumber (descriptor : Descriptor) (argument : String) : Except Problem (Mode × Int64) :=
  let (mode, digits) := splitSigil argument
  if descriptor.allows mode then
    match Text.readInt64 digits with
    | .error fault => .error (.nonNumericArgument argument fault)
    | .ok value =>
      if mode ≠ .direct ∧ value < 0 then .error (.negativeRegister value)
      else .ok (mode, value)
  else .error (.modeNotAllowed descriptor.mnemonic mode)

/-- Reads what follows a mnemonic as the operand that its descriptor asks for. -/
def readArguments (descriptor : Descriptor) (arguments : List String) :
    Except Problem Instruction :=
  let opcode := descriptor.mnemonic
  if descriptor.takesLabel then
    match arguments with
    | [] => .error (.missingJumpLabel opcode)
    | [target] => .ok { opcode, target := some target }
    | _ => .error (.tooManyArguments opcode arguments.length)
  else if descriptor.takesNumber then
    match arguments with
    | [] => .error (.missingParameter opcode)
    | [argument] =>
      match readNumber descriptor argument with
      | .error problem => .error problem
      | .ok (mode, value) => .ok { opcode, value := some value, mode }
    | _ => .error (.tooManyArguments opcode arguments.length)
  else
    match arguments with
    | [] => .ok { opcode }
    | _ => .error (.unexpectedParameter opcode)

/-- Reads a mnemonic and its arguments. -/
def readOpcode (table : OpcodeTable) (mnemonic : String) (arguments : List String) :
    Except Problem Instruction :=
  match table.resolve? mnemonic with
  | none => .error (.unknownOpcode mnemonic)
  | some descriptor => readArguments descriptor arguments

/-- The name of a label, written with or without one colon behind it. -/
def labelName (word : String) : String :=
  if word.toList.getLast? = some ':' then String.ofList word.toList.dropLast else word

/-- Reads the words of a line. A first word that is no mnemonic is a label, if a word follows. -/
def readWords (table : OpcodeTable) : List String → Except Problem Instruction
  | [] => .error .emptyLine
  | first :: rest =>
    if table.contains first then readOpcode table first rest
    else
      match rest with
      | [] => .error (.unknownOpcode first)
      | mnemonic :: arguments =>
        if labelName first = "" then .error .emptyLabel
        else
          (readOpcode table mnemonic arguments).map fun instruction =>
            { instruction with label := some (labelName first) }

/-- Reads the operation on a line. -/
def parseOperation (table : OpcodeTable) (line : String) (number : Nat) :
    Except Fault Operation :=
  match readWords table (Text.words line) with
  | .ok instruction => .ok { instruction with raw := line, line := number }
  | .error problem =>
    .error (((problem.fault.inTier .load).raisedIn "parser::parse_operation").noting "line"
      (Text.natural number))

/-- Why a line of a program was left out. -/
structure Diagnostic where
  line : Nat
  kind : Fault.Kind
  message : String
  source : String
  deriving DecidableEq, Repr

def Diagnostic.text (diagnostic : Diagnostic) : String :=
  "line " ++ Text.natural diagnostic.line ++ ": " ++ diagnostic.message ++ " (" ++
    diagnostic.source ++ ")"

/-- What a line of a program yields: nothing if it is blank without its comment, else an
operation or a diagnostic. -/
def readLine (table : OpcodeTable) (marker : Char) (line : String) (number : Nat) :
    Option (Except Diagnostic Operation) :=
  let text := stripComment marker line
  if text = "" then none
  else
    some <| (parseOperation table text number).mapError fun fault =>
      { line := number, kind := fault.kind, message := fault.message, source := text }

/-- What the lines of a program yield, in order; lines are counted from the given number. -/
def readLines (table : OpcodeTable) (marker : Char) (lines : List String) (start : Nat) :
    List (Except Diagnostic Operation) :=
  (lines.zipIdx start).filterMap fun (line, number) => readLine table marker line number

/-- The operations among what lines yield. -/
def operations (entries : List (Except Diagnostic Operation)) : List Operation :=
  entries.filterMap fun
    | .ok operation => some operation
    | .error _ => none

/-- The diagnostics among what lines yield. -/
def diagnostics (entries : List (Except Diagnostic Operation)) : List Diagnostic :=
  entries.filterMap fun
    | .ok _ => none
    | .error diagnostic => some diagnostic

/-- Reads a program from its lines, counted from one, and leaves out those it cannot read. -/
def parseProgram (table : OpcodeTable) (marker : Char) (lines : List String) :
    Program × List Diagnostic :=
  let entries := readLines table marker lines 1
  (⟨(operations entries).toArray⟩, diagnostics entries)

end RegisterMachine.Source

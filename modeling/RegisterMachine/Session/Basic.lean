import RegisterMachine.Machine
import RegisterMachine.Settings.Basic
import RegisterMachine.Source

namespace RegisterMachine

/-- What a session has been doing. -/
inductive Lifecycle where
  | idle
  | running
  | halted
  | interrupted
  deriving DecidableEq, Repr

def Lifecycle.name : Lifecycle → String
  | .idle => "idle"
  | .running => "running"
  | .halted => "halted"
  | .interrupted => "interrupted"

def Lifecycle.title : Lifecycle → String
  | .idle => "Idle"
  | .running => "Running"
  | .halted => "Halted"
  | .interrupted => "Interrupted"

/-- One machine with a program, the workspace on which it acts and the count of the steps since
the program was loaded. The flag `stopRequested` asks the run that is under way to end. -/
structure Session where
  machine : String
  settings : Settings
  table : OpcodeTable
  workspace : Workspace
  program : Program := .empty
  steps : UInt64 := 0
  state : Lifecycle := .idle
  stopRequested : Bool := false

namespace Session

def create (machine : Machine) (settings : Settings) : Except Fault Session :=
  machine.table.map fun table =>
    { machine := machine.name
      settings := settings
      table := table
      workspace := { memory := { named := machine.named } } }

def memory (session : Session) : Memory :=
  session.workspace.memory

def tape (session : Session) : Tape :=
  session.workspace.tape

def setMemory (session : Session) (memory : Memory) : Session :=
  { session with workspace := { session.workspace with memory := memory } }

def setTape (session : Session) (tape : Tape) : Session :=
  { session with workspace := { session.workspace with tape := tape } }

/-- Replaces the program by the lines that can be read and reports the others. Registers,
accumulator and tape are kept. -/
def load (session : Session) (lines : List String) : Session × List Source.Diagnostic :=
  let (program, diagnostics) :=
    Source.parseProgram session.table session.settings.commentMarker lines
  ({ session.setMemory (session.memory.setInstructionPointer 0) with
      program := program, steps := 0, state := .idle },
    diagnostics)

/-- Provides the input for single steps. -/
def setInputs (session : Session) (inputs : List String) : Session :=
  session.setTape (.ofList inputs)

/-- Clears memory, program, input and the count of steps. -/
def reset (session : Session) : Session :=
  { session with
    workspace := { memory := session.memory.clear, tape := .blank }
    program := .empty
    steps := 0
    state := .idle
    stopRequested := false }

/-- The operation that is next. -/
def next? (session : Session) : Option Operation :=
  session.program.at? session.memory.instructionPointer

def hasNext (session : Session) : Bool :=
  session.next?.isSome

/-- The number of steps that the session may take, once it has taken them. -/
def spentLimit? (session : Session) : Option UInt64 :=
  session.settings.maxSteps.filter (· ≤ session.steps)

/-- Asks the run that is under way to end; without a run nothing happens. -/
def requestStop (session : Session) : Session :=
  if session.state = .running then { session with stopRequested := true } else session

/-- The session in one line. -/
def summary (session : Session) : String :=
  "Interpreter \x7b machine: \"" ++ session.machine ++ "\", state: " ++ session.state.title ++
    ", ip: " ++ Text.decimal session.memory.instructionPointer.toInt ++ ", operations: " ++
    Text.natural session.program.size ++ ", steps: " ++ Text.natural session.steps.toNat ++
    " \x7d"

end Session

end RegisterMachine

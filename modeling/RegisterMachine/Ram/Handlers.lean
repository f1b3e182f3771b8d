import RegisterMachine.Ram.Operand

namespace RegisterMachine.Ram

/-- The result, or a fault for its problem. -/
def attempt {α : Type} : Except Problem α → Action α
  | .ok a => pure a
  | .error problem => throw problem.fault

/-- Puts the result of an operation of the accumulator and the operand into the accumulator,
if it fits. -/
def arithmetic (symbol : String) (apply : Int → Int → Int) : Handler := fun _ operation => do
  let memory := (← get).memory
  let left := memory.accumulator
  let right ← attempt (operand memory operation.toInstruction)
  match checked (apply left.toInt right.toInt) with
  | none => throw (Problem.arithmeticOverflow symbol left right).fault
  | some result =>
    Workspace.modifyMemory (·.setAccumulator result)
    return none

def load : Handler := fun _ operation => do
  let value ← attempt (operand (← get).memory operation.toInstruction)
  Workspace.modifyMemory (·.setAccumulator value)
  return none

def store : Handler := fun _ operation => do
  let memory := (← get).memory
  let address ← attempt (destination memory operation.toInstruction)
  Workspace.modifyMemory (·.set address memory.accumulator)
  return none

def add : Handler := arithmetic "+" (· + ·)

def sub : Handler := arithmetic "-" (· - ·)

def mul : Handler := arithmetic "*" (· * ·)

/-- Division truncates toward zero. -/
def div : Handler := fun program operation => do
  let divisor ← attempt (operand (← get).memory operation.toInstruction)
  if divisor = 0 then
    throw (Problem.divisionByZero.fault.raisedIn "ram::div")
  arithmetic "/" Int.tdiv program operation

/-- Consumes a token only if it is a number and there is a register for it. -/
def read : Handler := fun _ operation => do
  let workspace ← get
  match workspace.tape.peek with
  | none => throw ((Problem.inputExhausted workspace.tape.cursor).fault.raisedIn "ram::read")
  | some token =>
    match Text.readInt64 (Text.trim token) with
    | .error fault => throw ((Problem.invalidInput token fault).fault.raisedIn "ram::read")
    | .ok value =>
      let address ← attempt (destination workspace.memory operation.toInstruction)
      Workspace.modifyMemory (·.set address value)
      Workspace.modifyTape (·.advance)
      return none

def write : Handler := fun _ operation => do
  let value ← attempt (operand (← get).memory operation.toInstruction)
  return some (Text.decimal value.toInt)

def jump : Handler := fun program operation =>
  match operation.target with
  | none => throw Problem.missingOperand.fault
  | some target => do
    Workspace.jumpTo program target
    return none

/-- Jumps if the accumulator meets a condition. -/
def jumpIf (condition : Int64 → Bool) : Handler := fun program operation => do
  if condition (← get).memory.accumulator then jump program operation else return none

def jumpIfZero : Handler := jumpIf (· == 0)

def jumpIfPositive : Handler := jumpIf (· > 0)

def halt : Handler := fun program _ => do
  Workspace.halt program
  return none

end RegisterMachine.Ram

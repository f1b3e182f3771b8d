import RegisterMachine.Session.Basic

namespace RegisterMachine.Session

/-- The pointer behind the given one; the last one has none behind it. -/
def advancePointer (pointer : Int64) : Int64 :=
  if pointer = Int64.maxValue then pointer else pointer + 1

/-- The session after an operation has acted: one more step, and the pointer moves on. -/
def advance (session : Session) (workspace : Workspace) : Session :=
  let memory := workspace.memory
  { session with
    workspace := { workspace with
      memory := memory.setInstructionPointer (advancePointer memory.instructionPointer) }
    steps := session.steps + 1 }

/-- The fault of a step for which there is no operation. -/
def outOfRange (session : Session) : Fault :=
  (Problem.pointerOutOfRange session.memory.instructionPointer session.program.size).fault.raisedIn
    "interpreter::execute_next"

/-- The fault of a step beyond the limit. -/
def limitFault (limit : UInt64) (operation : Operation) : Fault :=
  ((Problem.stepLimitExceeded limit).fault.raisedIn "interpreter::execute_next").atOperation
    operation

/-- Executes the operation at the instruction pointer and gives the line that it emits. -/
def step (session : Session) : Except Fault (Option String) × Session :=
  match session.next? with
  | none => (.error session.outOfRange, session)
  | some operation =>
    match session.spentLimit? with
    | some limit => (.error (limitFault limit operation), session)
    | none =>
      match session.table.dispatch session.program operation session.workspace with
      | .ok line workspace => (.ok line, session.advance workspace)
      | .error fault workspace => (.error fault, { session with workspace := workspace })

/-- Takes up to the given number of steps, and none after one that fails. -/
def stepMany : Nat → Session → List (Except Fault (Option String)) × Session
  | 0, session => ([], session)
  | times + 1, session =>
    match session.step with
    | (.error fault, after) => ([.error fault], after)
    | (.ok line, after) =>
      let (results, last) := stepMany times after
      (.ok line :: results, last)

end RegisterMachine.Session

import RegisterMachine.Session.Run

namespace RegisterMachine

/-- What one step showed: the operation and where it stood, the accumulator after it, and the
line that it emitted. -/
structure TraceRow where
  pointer : Int64
  raw : String
  accumulator : Int64
  line : Option String
  deriving DecidableEq, Repr

/-- The lines that rows show. -/
def TraceRow.lines (rows : List TraceRow) : List String :=
  rows.filterMap TraceRow.line

namespace Session

/-- Takes single steps while there is a next operation, each for a unit of fuel. `taken` holds
the rows of the steps before, the last one first. -/
def traceFrom (fuel : Nat) (taken : List TraceRow) (session : Session) :
    List TraceRow × Outcome × Session :=
  match session.next? with
  | none => (taken.reverse, .finished (TraceRow.lines taken.reverse), session)
  | some operation =>
    match fuel with
    | 0 => (taken.reverse, .unfinished (TraceRow.lines taken.reverse), session)
    | fuel + 1 =>
      match session.step with
      | (.error fault, after) => (taken.reverse, .failed fault, after)
      | (.ok line, after) =>
        let row :=
          { pointer := session.memory.instructionPointer
            raw := operation.raw
            accumulator := after.memory.accumulator
            line := line }
        traceFrom fuel (row :: taken) after
termination_by structural fuel

/-- Single steps on the given input to the end of the program. -/
def trace (session : Session) (inputs : List String) (limit : Nat := fuel) :
    List TraceRow × Outcome × Session :=
  traceFrom limit [] (session.setInputs inputs)

end Session

end RegisterMachine

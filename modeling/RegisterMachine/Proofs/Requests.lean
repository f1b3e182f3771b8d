import RegisterMachine.Session.Run

namespace RegisterMachine

/-- A write to a memory from outside. -/
inductive Memory.Write where
  | accumulator (value : Int64)
  | instructionPointer (value : Int64)
  | register (address : UInt64) (value : Int64)
  | named (name : String) (value : Int64)
  | clear

namespace Memory

/-- The memory behind a write, and whether there is what was to be written. -/
def written (memory : Memory) : Write → Memory × Bool
  | .accumulator value => (memory.setAccumulator value, true)
  | .instructionPointer value => (memory.setInstructionPointer value, true)
  | .register address value => (memory.set address value, true)
  | .named name value =>
    match memory.writeNamed name value with
    | some after => (after, true)
    | none => (memory, false)
  | .clear => (memory.clear, true)

end Memory

/-- What can be asked of a session from outside, one after another. A run is given with the signals
that reach it and with its fuel. The memory is written by what it offers for that, or changed in
any other way, up to putting another one in its place. -/
inductive Request where
  | load (lines : List String)
  | setInputs (inputs : List String)
  | step
  | run (inputs : List String) (signals : Nat → Signal) (limit : Nat)
  | runPaced (inputs : List String) (signals : Nat → Signal) (limit : Nat)
  | requestStop
  | reset
  | write (change : Memory.Write)
  | edit (change : Memory → Memory)

/-- What a session answers to a request. -/
inductive Reply where
  | done
  | loaded (diagnostics : List Source.Diagnostic)
  | stepped (result : Except Fault (Option String))
  | ran (outcome : Outcome)
  | wrote (known : Bool)

namespace Session

def reply (session : Session) : Request → Reply
  | .load lines => .loaded (session.load lines).2
  | .step => .stepped session.step.1
  | .run inputs signals limit => .ran (session.run inputs signals limit).1
  | .runPaced inputs signals limit => .ran (session.runPaced inputs signals limit).1
  | .write change => .wrote (session.memory.written change).2
  | .setInputs _ | .requestStop | .reset | .edit _ => .done

/-- The session after a request. -/
def obey (session : Session) : Request → Session
  | .load lines => (session.load lines).1
  | .setInputs inputs => session.setInputs inputs
  | .step => session.step.2
  | .run inputs signals limit => (session.run inputs signals limit).2
  | .runPaced inputs signals limit => (session.runPaced inputs signals limit).2
  | .requestStop => session.requestStop
  | .reset => session.reset
  | .write change => session.setMemory (session.memory.written change).1
  | .edit change => session.setMemory (change session.memory)

/-- The session after requests. -/
def obeyAll (session : Session) (requests : List Request) : Session :=
  requests.foldl obey session

/-- What is seen of a session to which requests are made: after each of them its answer, and the
session as it is then. -/
def transcript (session : Session) : List Request → List (Reply × Session)
  | [] => []
  | request :: further =>
    (session.reply request, session.obey request) :: (session.obey request).transcript further

theorem obeyAll_append (s : Session) (history further : List Request) :
    s.obeyAll (history ++ further) = (s.obeyAll history).obeyAll further :=
  List.foldl_append

theorem transcript_append (s : Session) (history further : List Request) :
    s.transcript (history ++ further) =
      s.transcript history ++ (s.obeyAll history).transcript further := by
  induction history generalizing s with
  | nil => rfl
  | cons request history ih =>
    simp only [List.cons_append, transcript, ih]
    rfl

end Session

end RegisterMachine

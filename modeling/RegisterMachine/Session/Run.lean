import RegisterMachine.Session.Step

namespace RegisterMachine

/-- What reaches a run from outside while it is at one of its steps: nothing, a request to stop,
or, in the pause after the step, that the run is abandoned. -/
inductive Signal where
  | quiet
  | stop
  | abandon
  deriving DecidableEq, Repr

/-- What a run comes to. A run that is not over when its fuel is spent is unfinished. -/
inductive Outcome where
  | finished (lines : List String)
  | failed (fault : Fault)
  | abandoned
  | unfinished (lines : List String)
  deriving DecidableEq, Repr

namespace Session

/-- The last line of a run that was stopped. -/
def interruptionNotice : String := "Execution has been interrupted."

/-- The session at the start of a run: fresh input, and no request to stop from before. -/
def start (session : Session) (inputs : List String) : Session :=
  { session.setInputs inputs with state := .running, stopRequested := false }

def finish (session : Session) (state : Lifecycle) : Session :=
  { session with state := state }

/-- A request to stop is heard; other signals leave the session as it is. -/
def hear (session : Session) : Signal → Session
  | .stop => session.requestStop
  | .quiet | .abandon => session

/-- Steps until the program ends, a step fails, or a signal ends the run; every step, also one
that fails, spends a unit of fuel. `signals n` reaches the run at its `n`-th step, counted from
one, of which `taken` are over; `emitted` holds their lines, the last one first. The flag is
sampled after every step; a run that does not pause cannot be abandoned. -/
def proceed (pauses : Bool) (signals : Nat → Signal) (fuel taken : Nat) (emitted : List String)
    (session : Session) : Outcome × Session :=
  if session.hasNext then
    match fuel with
    | 0 => (.unfinished emitted.reverse, session)
    | fuel + 1 =>
      let signal := signals (taken + 1)
      match session.step with
      | (.error fault, after) => (.failed fault, (after.hear signal).finish .halted)
      | (.ok line, after) =>
        let emitted := line.toList ++ emitted
        if pauses ∧ signal = .abandon then (.abandoned, after.finish .interrupted)
        else
          let after := after.hear signal
          if after.stopRequested then
            (.finished (interruptionNotice :: emitted).reverse,
              { after.finish .interrupted with stopRequested := false })
          else proceed pauses signals fuel (taken + 1) emitted after
  else (.finished emitted.reverse, session.finish .halted)
termination_by structural fuel

/-- As many steps as a 64-bit count of steps can tell apart. -/
def fuel : Nat := 0x10000000000000000

/-- No signal reaches the run. -/
def undisturbed : Nat → Signal := fun _ => .quiet

/-- A signal reaches the run at one of its steps. -/
def signalAt (step : Nat) (signal : Signal) : Nat → Signal := fun n =>
  if n = step then signal else .quiet

/-- Whether the session pauses after a step. -/
def pauses (session : Session) : Bool :=
  session.settings.stepDelay != 0

/-- Runs the program from the instruction pointer without pauses. -/
def run (session : Session) (inputs : List String) (signals : Nat → Signal := undisturbed)
    (limit : Nat := fuel) : Outcome × Session :=
  proceed false signals limit 0 [] (session.start inputs)

/-- Runs the program from the instruction pointer, with the pause of the settings after each
step. -/
def runPaced (session : Session) (inputs : List String) (signals : Nat → Signal := undisturbed)
    (limit : Nat := fuel) : Outcome × Session :=
  proceed session.pauses signals limit 0 [] (session.start inputs)

/-- Runs the program with pauses; a signal comes in the pause after one of its steps, the first
at the earliest, and so not at all if there are no pauses. -/
def runUntilPause (session : Session) (inputs : List String) (step : Nat) (signal : Signal) :
    Outcome × Session :=
  session.runPaced inputs
    (if session.pauses then signalAt (max step 1) signal else undisturbed)

end Session

end RegisterMachine

import RegisterMachine.Session.Run

namespace RegisterMachine

/-- What the engine does next. Each point is one action on what it shares with the calls to stop:
a run clears the flag, sets the state, then steps and samples the flag in turn, and at last
leaves the state in which it ended. -/
inductive RunPoint where
  | resting
  | cleared
  | looping
  | sampling
  | closing (state : Lifecycle)
  deriving DecidableEq, Repr

/-- What a call to stop does next: it reads the state, subscribes to its changes, stores the flag
and waits until it sees that nothing runs. -/
inductive StopCall where
  | calling
  | admitted
  | subscribed
  | waiting
  | returned
  deriving DecidableEq, Repr

/-- A session on which runs follow one another, and the calls to stop that are made meanwhile. -/
structure Interplay where
  session : Session
  point : RunPoint := .resting
  calls : Nat → StopCall := fun _ => .calling

/-- Who acts: the engine begins a run or goes on with it, or one of the calls goes on. -/
inductive Move where
  | begin (inputs : List String)
  | engine
  | call (i : Nat)
  deriving DecidableEq, Repr

namespace Interplay

def setCall (interplay : Interplay) (i : Nat) (call : StopCall) : Interplay :=
  { interplay with calls := fun j => if j = i then call else interplay.calls j }

/-- The next action of the engine. A step that fails ends the run like the end of the program. -/
def engineMove (interplay : Interplay) : Interplay :=
  let session := interplay.session
  match interplay.point with
  | .resting => interplay
  | .cleared => { interplay with session := session.finish .running, point := .looping }
  | .looping =>
    if session.hasNext then
      match session.step with
      | (.ok _, after) => { interplay with session := after, point := .sampling }
      | (.error _, after) => { interplay with session := after, point := .closing .halted }
    else { interplay with point := .closing .halted }
  | .sampling =>
    if session.stopRequested then
      { interplay with
        session := { session with stopRequested := false }
        point := .closing .interrupted }
    else { interplay with point := .looping }
  | .closing state => { interplay with session := session.finish state, point := .resting }

/-- The next action of a call. One that waits looks at the state as it is then. -/
def callMove (interplay : Interplay) (i : Nat) : Interplay :=
  let session := interplay.session
  match interplay.calls i with
  | .calling =>
    interplay.setCall i (if session.state = .running then .admitted else .returned)
  | .admitted => interplay.setCall i .subscribed
  | .subscribed =>
    { interplay.setCall i .waiting with session := { session with stopRequested := true } }
  | .waiting => if session.state = .running then interplay else interplay.setCall i .returned
  | .returned => interplay

/-- A run can only begin where none is under way; a move that is not possible does nothing. -/
def move (interplay : Interplay) : Move → Interplay
  | .begin inputs =>
    match interplay.point with
    | .resting =>
      { interplay with
        session := { interplay.session.setInputs inputs with stopRequested := false }
        point := .cleared }
    | _ => interplay
  | .engine => interplay.engineMove
  | .call i => interplay.callMove i

/-- The interplay after moves in the given order. -/
def play (interplay : Interplay) (schedule : List Move) : Interplay :=
  schedule.foldl move interplay

/-- Whether a move executes an operation, be it one that fails. -/
def executes (interplay : Interplay) : Move → Bool
  | .engine => interplay.point = .looping && interplay.session.hasNext
  | .begin _ | .call _ => false

/-- How many operations are executed in the course of moves. -/
def operations (interplay : Interplay) : List Move → Nat
  | [] => 0
  | next :: schedule =>
    (interplay.executes next).toNat + (interplay.move next).operations schedule

end Interplay

end RegisterMachine

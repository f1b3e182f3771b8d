import Mathlib.Data.List.Forall2
import RegisterMachine.Proofs.Interruption
import RegisterMachine.Proofs.Requests

namespace RegisterMachine

/-- The request without the signals that reach its run. -/
def Request.unsignalled : Request → Request
  | .run inputs _ limit => .run inputs Session.undisturbed limit
  | .runPaced inputs _ limit => .runPaced inputs Session.undisturbed limit
  | request => request

namespace Session

/-- No signal ends the run of a request: none reaches it at a step that succeeds. A request to
stop may come behind the last step, or at one that fails. -/
def Uncut (s : Session) : Request → Prop
  | .run inputs signals _ => ∀ k lines t, Steps (s.setInputs inputs) (k + 1) lines t →
      (signals (k + 1)).ends false = false
  | .runPaced inputs signals _ => ∀ k lines t, Steps (s.setInputs inputs) (k + 1) lines t →
      (signals (k + 1)).ends s.pauses = false
  | _ => True

/-- The session with another stop flag. -/
def flagged (s : Session) (flag : Bool) : Session :=
  { s with stopRequested := flag }

/-- The same is seen after a request: the same answer, and the same session but for a request to
stop that is left in it. After a run not even that tells the sessions apart. -/
structure SeenAlike (a b : Reply × Session) : Prop where
  reply : a.1 = b.1
  session : a.2 = b.2.flagged a.2.stopRequested
  ran : ∀ outcome, b.1 = .ran outcome → a.2 = b.2

section
variable {s : Session}

/-- What a request comes to does not depend on the stop flag. -/
theorem seenAlike_flagged (s : Session) (flag : Bool) (request : Request) :
    SeenAlike ((s.flagged flag).reply request, (s.flagged flag).obey request)
      (s.reply request, s.obey request) := by
  cases request with
  | load lines => exact ⟨rfl, rfl, fun _ h => by cases h⟩
  | setInputs inputs => exact ⟨rfl, rfl, fun _ h => by cases h⟩
  | step =>
    have hstep : (s.flagged flag).step = (s.step.1, s.step.2.phase s.state flag) :=
      step_phase s s.state flag
    have hkept : Kept s s.step.2 := step_kept rfl
    refine ⟨?_, ?_, fun _ h => by cases h⟩
    · change Reply.stepped (s.flagged flag).step.1 = .stepped s.step.1
      rw [hstep]
    · change (s.flagged flag).step.2 = s.step.2.flagged (s.flagged flag).step.2.stopRequested
      rw [hstep, ← hkept.state]
      rfl
  | run inputs signals limit => exact ⟨rfl, rfl, fun _ _ => rfl⟩
  | runPaced inputs signals limit => exact ⟨rfl, rfl, fun _ _ => rfl⟩
  | requestStop =>
    refine ⟨rfl, ?_, fun _ h => by cases h⟩
    change (s.flagged flag).requestStop =
      s.requestStop.flagged (s.flagged flag).requestStop.stopRequested
    by_cases hrunning : s.state = .running
    · simp [requestStop, flagged, hrunning]
    · simp [requestStop, flagged, hrunning]
  | reset => exact ⟨rfl, rfl, fun _ h => by cases h⟩
  | write change => exact ⟨rfl, rfl, fun _ h => by cases h⟩
  | edit change => exact ⟨rfl, rfl, fun _ h => by cases h⟩

/-- The stop flag between two requests is never seen again. -/
theorem transcript_flagged (s : Session) (flag : Bool) (further : List Request) :
    List.Forall₂ SeenAlike ((s.flagged flag).transcript further) (s.transcript further) := by
  induction further generalizing s flag with
  | nil => exact .nil
  | cons request further ih =>
    have hseen := seenAlike_flagged s flag request
    have hnext : (s.flagged flag).obey request = (s.obey request).flagged _ := hseen.session
    refine .cons hseen ?_
    rw [hnext]
    exact ih _ _

/-- Signals that end no step that succeeds change neither what a run comes to nor what it leaves,
but for the flag. -/
theorem run_uncut {pauses : Bool} {inputs : List String} {signals : Nat → Signal}
    (h : ∀ k lines t, Steps (s.setInputs inputs) (k + 1) lines t →
      (signals (k + 1)).ends pauses = false) (limit : Nat) :
    (proceed pauses signals limit 0 [] (s.start inputs)).1 =
        (proceed pauses undisturbed limit 0 [] (s.start inputs)).1 ∧
      ∃ flag, (proceed pauses signals limit 0 [] (s.start inputs)).2 =
        (proceed pauses undisturbed limit 0 [] (s.start inputs)).2.flagged flag := by
  have hquiet : ∀ k lines t, Steps (s.start inputs) (k + 1) lines t →
      (signals (0 + (k + 1))).ends pauses = false := by
    intro k lines t hs
    rw [Nat.zero_add]
    exact h k lines _ (hs.phase s.state s.stopRequested)
  obtain ⟨houtcome, hafter⟩ := proceed_undisturbed (underway_start s inputs) hquiet
  refine ⟨houtcome, (proceed pauses signals limit 0 [] (s.start inputs)).2.stopRequested, ?_⟩
  rw [← hafter]
  rfl

theorem obey_uncut {request : Request} (h : s.Uncut request) :
    s.reply request = s.reply request.unsignalled ∧
      ∃ flag, s.obey request = (s.obey request.unsignalled).flagged flag := by
  cases request with
  | run inputs signals limit =>
    obtain ⟨houtcome, hafter⟩ := run_uncut h limit
    exact ⟨congrArg Reply.ran houtcome, hafter⟩
  | runPaced inputs signals limit =>
    obtain ⟨houtcome, hafter⟩ := run_uncut h limit
    exact ⟨congrArg Reply.ran houtcome, hafter⟩
  | load lines => exact ⟨rfl, _, rfl⟩
  | setInputs inputs => exact ⟨rfl, _, rfl⟩
  | step => exact ⟨rfl, _, rfl⟩
  | requestStop => exact ⟨rfl, _, rfl⟩
  | reset => exact ⟨rfl, _, rfl⟩
  | write change => exact ⟨rfl, _, rfl⟩
  | edit change => exact ⟨rfl, _, rfl⟩

end

/-- Requests to stop that come too late come to nothing: one that is made while nothing runs, one
that is still there behind the run that it was meant for, and one that reaches a run when there is
no step left to end it at. All that is asked later is answered as if they had not been made. -/
structure LateStopsVanish (s : Session) : Prop where
  unheard : s.obey .requestStop = s
  leftover : ∀ flag further,
    List.Forall₂ SeenAlike ((s.flagged flag).transcript further) (s.transcript further)
  tooLate : ∀ request, s.Uncut request → s.reply request = s.reply request.unsignalled ∧
    ∀ further, List.Forall₂ SeenAlike ((s.obey request).transcript further)
      ((s.obey request.unsignalled).transcript further)

theorem lateStopsVanish {s : Session} (h : s.state ≠ .running) : LateStopsVanish s where
  unheard := by
    change s.requestStop = s
    rw [requestStop, if_neg h]
  leftover := transcript_flagged s
  tooLate := by
    intro request huncut
    obtain ⟨hreply, flag, hobey⟩ := obey_uncut huncut
    refine ⟨hreply, fun further => ?_⟩
    rw [hobey]
    exact transcript_flagged _ flag further

end Session

end RegisterMachine

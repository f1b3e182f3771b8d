import RegisterMachine.Proofs.Dispatching
import RegisterMachine.Proofs.Endings
import RegisterMachine.Proofs.Interruption
import RegisterMachine.Session.Stopping

namespace RegisterMachine.Interplay

variable {x y : Interplay} {next : Move} {schedule : List Move} {i : Nat}

@[simp] theorem play_nil (x : Interplay) : x.play [] = x := rfl

@[simp] theorem play_cons (x : Interplay) (next : Move) (schedule : List Move) :
    x.play (next :: schedule) = (x.move next).play schedule := rfl

theorem play_append (x : Interplay) (front back : List Move) :
    x.play (front ++ back) = (x.play front).play back :=
  List.foldl_append

/-- All that an action of the engine can do. -/
inductive EngineAct (x : Interplay) : Interplay → Prop
  | rest (point : x.point = .resting) : EngineAct x x
  | launch (point : x.point = .cleared) :
      EngineAct x { x with session := x.session.finish .running, point := .looping }
  | step {line : Option String} {after : Session} (point : x.point = .looping)
      (step : x.session.step = (.ok line, after)) :
      EngineAct x { x with session := after, point := .sampling }
  | fail {fault : Fault} {after : Session} (point : x.point = .looping)
      (next : x.session.hasNext = true) (step : x.session.step = (.error fault, after)) :
      EngineAct x { x with session := after, point := .closing .halted }
  | leave (point : x.point = .looping) (atEnd : x.session.hasNext = false) :
      EngineAct x { x with point := .closing .halted }
  | heed (point : x.point = .sampling) (raised : x.session.stopRequested = true) :
      EngineAct x { x with
        session := { x.session with stopRequested := false }, point := .closing .interrupted }
  | goOn (point : x.point = .sampling) (unasked : x.session.stopRequested = false) :
      EngineAct x { x with point := .looping }
  | close {state : Lifecycle} (point : x.point = .closing state) :
      EngineAct x { x with session := x.session.finish state, point := .resting }

theorem engineMove_act (x : Interplay) : EngineAct x x.engineMove := by
  unfold engineMove
  cases hpoint : x.point with
  | resting => exact .rest hpoint
  | cleared => exact .launch hpoint
  | looping =>
    dsimp only
    split
    · rename_i hnext
      obtain ⟨r, after, hstep⟩ : ∃ r after, x.session.step = (r, after) := ⟨_, _, rfl⟩
      rw [hstep]
      cases r with
      | ok line => exact .step hpoint hstep
      | error fault => exact .fail hpoint hnext hstep
    · rename_i hnext
      exact .leave hpoint (Bool.not_eq_true _ ▸ hnext)
  | sampling =>
    dsimp only
    split
    · rename_i hflag
      exact .heed hpoint hflag
    · rename_i hflag
      exact .goOn hpoint (Bool.not_eq_true _ ▸ hflag)
  | closing state => exact .close hpoint

/-- The engine does not know of the calls. -/
theorem EngineAct.calls (h : EngineAct x y) : y.calls = x.calls := by
  cases h <;> rfl

theorem operations_append (x : Interplay) (front back : List Move) :
    x.operations (front ++ back) = x.operations front + (x.play front).operations back := by
  induction front generalizing x with
  | nil => simp [operations]
  | cons next front ih =>
    rw [List.cons_append, operations, ih, operations, play_cons, Nat.add_assoc]

section Calls

@[simp] theorem setCall_self (x : Interplay) (i : Nat) (call : StopCall) :
    (x.setCall i call).calls i = call := by
  simp [setCall]

theorem setCall_other (x : Interplay) {i j : Nat} (h : i ≠ j) (call : StopCall) :
    (x.setCall j call).calls i = x.calls i := by
  simp [setCall, h]

/-- A call changes nothing of a session but the flag, and that it only raises. -/
theorem callMove_spec (x : Interplay) (i : Nat) :
    (x.callMove i).point = x.point ∧
      ∃ flag, (x.callMove i).session = { x.session with stopRequested := flag } ∧
        (x.session.stopRequested = true → flag = true) := by
  unfold callMove
  cases x.calls i with
  | calling => exact ⟨rfl, _, rfl, id⟩
  | admitted => exact ⟨rfl, _, rfl, id⟩
  | subscribed => exact ⟨rfl, true, rfl, fun _ => rfl⟩
  | waiting =>
    refine ⟨?_, x.session.stopRequested, ?_, id⟩ <;> simp only <;> split <;> rfl
  | returned => exact ⟨rfl, _, rfl, id⟩

theorem callMove_other (x : Interplay) {i j : Nat} (h : i ≠ j) :
    (x.callMove j).calls i = x.calls i := by
  unfold callMove
  cases x.calls j with
  | calling => exact x.setCall_other h _
  | admitted => exact x.setCall_other h _
  | subscribed => exact x.setCall_other h _
  | waiting =>
    simp only
    split
    · rfl
    · exact x.setCall_other h _
  | returned => rfl

theorem begin_calls (x : Interplay) (inputs : List String) :
    (x.move (.begin inputs)).calls = x.calls := by
  simp only [move]
  split <;> rfl

/-- A call whose actions follow one right after the other is a request to stop. -/
theorem session_of_call (h : x.calls i = .calling) :
    (x.play [.call i, .call i, .call i]).session = x.session.requestStop := by
  by_cases hrunning : x.session.state = .running
  · simp [move, callMove, h, hrunning, Session.requestStop, setCall]
  · simp [move, callMove, h, hrunning, Session.requestStop, setCall]

end Calls

section Coherence

/-- The state is that of the point: running from where a run sets it to where it leaves it. -/
def Coherent (x : Interplay) : Prop :=
  match x.point with
  | .resting | .cleared => x.session.state ≠ .running
  | .looping | .sampling => x.session.state = .running
  | .closing state => x.session.state = .running ∧ state ≠ .running

theorem EngineAct.coherent (h : EngineAct x y) (hx : Coherent x) : Coherent y := by
  unfold Coherent at hx ⊢
  cases h with
  | rest point => exact hx
  | launch point => rfl
  | step point step => rw [point] at hx; exact (Session.step_kept step).state.trans hx
  | fail point next step =>
    rw [point] at hx
    exact ⟨(Session.step_kept step).state.trans hx, by simp⟩
  | leave point atEnd => rw [point] at hx; exact ⟨hx, by simp⟩
  | heed point raised => rw [point] at hx; exact ⟨hx, by simp⟩
  | goOn point unasked => rw [point] at hx; exact hx
  | close point => rw [point] at hx; exact hx.2

theorem Coherent.move (hx : Coherent x) (next : Move) : Coherent (x.move next) := by
  cases next with
  | begin inputs =>
    simp only [Interplay.move]
    split
    · rename_i hpoint
      rw [Coherent, hpoint] at hx
      exact hx
    · exact hx
  | engine => exact x.engineMove_act.coherent hx
  | call i =>
    obtain ⟨hpoint, flag, hsession, -⟩ := x.callMove_spec i
    unfold Coherent Interplay.move
    rw [hpoint, hsession]
    exact hx

theorem Coherent.play (hx : Coherent x) (schedule : List Move) : Coherent (x.play schedule) := by
  induction schedule generalizing x with
  | nil => exact hx
  | cons next schedule ih => exact ih (hx.move next)

end Coherence

section Pending

/-- A run that is under way will end: the flag is up, or has been sampled. -/
def Doomed (x : Interplay) : Prop :=
  match x.point with
  | .cleared | .looping | .sampling => x.session.stopRequested = true
  | .resting | .closing _ => True

/-- How many actions a run that will end has left. -/
def distance (x : Interplay) : Nat :=
  match x.point with
  | .resting => 0
  | .closing _ => 1
  | .sampling => 2
  | .looping => 3
  | .cleared => 4

/-- How many operations a run that will end may still execute. -/
def due (x : Interplay) : Nat :=
  match x.point with
  | .cleared | .looping => 1
  | .resting | .sampling | .closing _ => 0

/-- Each action of the engine brings such a run nearer to its end. -/
theorem EngineAct.doomed (h : EngineAct x y) (hx : Doomed x) :
    Doomed y ∧ y.distance ≤ x.distance - 1 ∧ (x.executes .engine).toNat + y.due ≤ x.due := by
  unfold Doomed distance due executes at *
  cases h with
  | rest point => simp [point]
  | launch point =>
    rw [point] at hx
    simpa [point, Session.finish] using hx
  | step point step =>
    rw [point] at hx
    have hflag := (Session.step_kept step).stopRequested.trans hx
    simpa [point, Session.hasNext_of_step_ok step] using hflag
  | fail point next step => simp [point, next]
  | leave point atEnd => simp [point, atEnd]
  | heed point raised => simp [point]
  | goOn point unasked =>
    rw [point] at hx
    exact absurd hx (by simp [unasked])
  | close point => simp [point]

/-- No call delays the end of a run. -/
theorem doomed_callMove (hx : Doomed x) (i : Nat) :
    Doomed (x.callMove i) ∧ (x.callMove i).distance = x.distance ∧
      (x.callMove i).due = x.due := by
  obtain ⟨hpoint, flag, hsession, hraised⟩ := x.callMove_spec i
  unfold Doomed distance due at *
  rw [hpoint, hsession]
  refine ⟨?_, rfl, rfl⟩
  generalize x.point = point at hx ⊢
  cases point with
  | cleared => exact hraised hx
  | looping => exact hraised hx
  | sampling => exact hraised hx
  | resting => trivial
  | closing state => trivial

/-- Until the next run begins, a run that will end comes nearer to its end. -/
theorem Doomed.play (hx : Doomed x) (hbegin : ∀ inputs, Move.begin inputs ∉ schedule) :
    (x.play schedule).distance ≤ x.distance - schedule.count .engine ∧
      x.operations schedule + (x.play schedule).due ≤ x.due := by
  induction schedule generalizing x with
  | nil => simp [operations]
  | cons next schedule ih =>
    have hrest : ∀ inputs, Move.begin inputs ∉ schedule :=
      fun inputs hmem => hbegin inputs (List.mem_cons_of_mem _ hmem)
    rw [play_cons, operations]
    cases next with
    | begin inputs => exact absurd List.mem_cons_self (hbegin inputs)
    | engine =>
      obtain ⟨hdoomed, hdistance, hdue⟩ := x.engineMove_act.doomed hx
      obtain ⟨hfar, hleft⟩ := ih hdoomed hrest
      rw [List.count_cons_self]
      simp only [Interplay.move]
      omega
    | call i =>
      obtain ⟨hdoomed, hdistance, hdue⟩ := doomed_callMove hx i
      obtain ⟨hfar, hleft⟩ := ih hdoomed hrest
      rw [List.count_cons_of_ne (by simp)]
      simp only [Interplay.move, executes, Bool.toNat_false]
      omega

/-- Once the flag is up, at most one more operation is executed until the next run begins, and four
actions of the engine leave nothing that runs. -/
theorem Coherent.heeds (hx : Coherent x) (hflag : x.session.stopRequested = true)
    (hbegin : ∀ inputs, Move.begin inputs ∉ schedule) :
    x.operations schedule ≤ 1 ∧
      (4 ≤ schedule.count .engine → (x.play schedule).session.state ≠ .running) := by
  have hdoomed : Doomed x := by
    unfold Doomed
    cases x.point with
    | cleared => exact hflag
    | looping => exact hflag
    | sampling => exact hflag
    | resting => trivial
    | closing state => trivial
  obtain ⟨hdistance, hdue⟩ := hdoomed.play hbegin
  have hone : x.due ≤ 1 := by
    unfold due
    split <;> omega
  have hfar : x.distance ≤ 4 := by
    unfold distance
    split <;> omega
  refine ⟨by omega, ?_⟩
  intro hfour
  have hzero : (x.play schedule).distance = 0 := by omega
  have hleft := hx.play schedule
  unfold Coherent at hleft
  unfold distance at hzero
  cases hpoint : (x.play schedule).point with
  | resting =>
    rw [hpoint] at hleft
    exact hleft
  | _ =>
    rw [hpoint] at hzero
    cases hzero

end Pending

section Waiting

/-- A call that has stored the flag waits until it has returned. -/
theorem stored_move (h : x.calls i = .waiting ∨ x.calls i = .returned) (next : Move) :
    (x.move next).calls i = .waiting ∨ (x.move next).calls i = .returned := by
  cases next with
  | begin inputs => rw [begin_calls]; exact h
  | engine =>
    have hcalls : (x.move .engine).calls = x.calls := x.engineMove_act.calls
    rw [hcalls]
    exact h
  | call j =>
    by_cases hij : i = j
    · subst hij
      simp only [move, callMove]
      rcases h with h | h
      · rw [h]
        dsimp only
        split
        · exact .inl h
        · exact .inr (setCall_self x i _)
      · rw [h]
        exact .inr h
    · simp only [move, callMove_other x hij]
      exact h

theorem stored_play (h : x.calls i = .waiting ∨ x.calls i = .returned) (schedule : List Move) :
    (x.play schedule).calls i = .waiting ∨ (x.play schedule).calls i = .returned := by
  induction schedule generalizing x with
  | nil => exact h
  | cons next schedule ih => exact ih (stored_move h next)

theorem returned_of_not_running (h : x.calls i = .waiting ∨ x.calls i = .returned)
    (hstate : x.session.state ≠ .running) : (x.move (.call i)).calls i = .returned := by
  simp only [move, callMove]
  rcases h with h | h
  · rw [h]
    simp only [if_neg hstate, setCall_self]
  · rw [h]
    exact h

/-- Storing the flag is the last that a call does before it waits. -/
theorem move_subscribed (h : x.calls i = .subscribed) :
    (x.move (.call i)).session.stopRequested = true ∧ (x.move (.call i)).calls i = .waiting := by
  simp [move, callMove, h, setCall]

end Waiting

section Runs
open Session (Steps Underway Ending)

variable {s t : Session}

/-- While no call stores the flag, the engine takes the steps that can be taken. -/
theorem play_steps {k : Nat} {lines : List String} (h : Steps s k lines t) (hu : Underway s)
    (calls : Nat → StopCall) :
    play ⟨s, .looping, calls⟩ (List.replicate (2 * k) .engine) = ⟨t, .looping, calls⟩ ∧
      operations ⟨s, .looping, calls⟩ (List.replicate (2 * k) .engine) = k := by
  induction h with
  | refl s => exact ⟨rfl, rfl⟩
  | @cons s t u line k lines head tail ih =>
    have hut := hu.kept (Session.step_kept head)
    have hstep : move ⟨s, .looping, calls⟩ .engine = ⟨t, .sampling, calls⟩ := by
      simp [move, engineMove, Session.hasNext_of_step_ok head, head]
    have hsample : move ⟨t, .sampling, calls⟩ .engine = ⟨t, .looping, calls⟩ := by
      simp [move, engineMove, hut.unasked]
    obtain ⟨hplay, hoperations⟩ := ih hut
    rw [Nat.mul_succ, List.replicate_succ, List.replicate_succ]
    simp only [play_cons, operations, hstep, hsample, hplay, hoperations, true_and]
    simp [executes, Session.hasNext_of_step_ok head, Nat.add_comm]

/-- A run begins with a session at its start, if no call comes between its first two actions. -/
theorem play_start (h : x.point = .resting) (inputs : List String) :
    x.play [.begin inputs, .engine] = ⟨x.session.start inputs, .looping, x.calls⟩ ∧
      x.operations [.begin inputs, .engine] = 0 := by
  constructor
  · simp [move, engineMove, h, Session.finish, Session.start]
  · simp [operations, executes, move, h]

/-- A run that begins can take all the steps that can be taken; no call has to be heard. -/
theorem play_run (h : x.point = .resting) {inputs : List String} {k : Nat} {lines : List String}
    (hsteps : Steps (x.session.start inputs) k lines t) :
    x.play ([.begin inputs, .engine] ++ List.replicate (2 * k) .engine) =
        ⟨t, .looping, x.calls⟩ ∧
      x.operations ([.begin inputs, .engine] ++ List.replicate (2 * k) .engine) = k := by
  obtain ⟨hbegun, hnone⟩ := play_start h inputs
  obtain ⟨hplay, hoperations⟩ :=
    play_steps hsteps (Session.underway_start x.session inputs) x.calls
  rw [play_append, operations_append, hnone, hbegun, Nat.zero_add]
  exact ⟨hplay, hoperations⟩

/-- A run that is over from a session at its start, and what its last step left. It has come to its
end, or was stopped behind a step. -/
inductive Over (s : Session) : Lifecycle → Session → Prop
  | halted {k : Nat} {outcome : Outcome} {t : Session} (ending : Ending s k outcome t) :
      Over s .halted t
  | interrupted {k : Nat} {lines : List String} {t : Session} (steps : Steps s (k + 1) lines t) :
      Over s .interrupted t

/-- The engine is on its way from a session at the start of a run. Neither the state nor the flag
counts, which a run looks at in none of its steps. -/
def Follows (s : Session) (x : Interplay) : Prop :=
  match x.point with
  | .cleared => x.session.phase .running false = s
  | .looping => ∃ k lines, Steps s k lines (x.session.phase .running false)
  | .sampling => ∃ k lines, Steps s (k + 1) lines (x.session.phase .running false)
  | .closing state => Over s state (x.session.phase .running false)
  | .resting => Over s x.session.state (x.session.phase .running false)

theorem EngineAct.follows (h : EngineAct x y) (hx : Follows s x) : Follows s y := by
  unfold Follows at hx ⊢
  cases h with
  | rest point => exact hx
  | launch point =>
    rw [point] at hx
    exact ⟨0, [], hx ▸ .refl _⟩
  | @step line after point step =>
    rw [point] at hx
    obtain ⟨k, lines, hsteps⟩ := hx
    refine ⟨k, lines ++ line.toList, hsteps.snoc ?_⟩
    rw [Session.step_phase, step]
  | @fail fault after point next step =>
    rw [point] at hx
    obtain ⟨k, lines, hsteps⟩ := hx
    have hfail : (x.session.phase .running false).step =
        (.error fault, after.phase .running false) := by
      rw [Session.step_phase, step]
    exact .halted (.failed hsteps next hfail)
  | leave point atEnd =>
    rw [point] at hx
    obtain ⟨k, lines, hsteps⟩ := hx
    exact .halted (.finished hsteps atEnd)
  | heed point raised =>
    rw [point] at hx
    obtain ⟨k, lines, hsteps⟩ := hx
    exact .interrupted hsteps
  | goOn point unasked =>
    rw [point] at hx
    obtain ⟨k, lines, hsteps⟩ := hx
    exact ⟨k + 1, lines, hsteps⟩
  | close point =>
    rw [point] at hx
    exact hx

theorem Follows.play (hx : Follows s x) (hbegin : ∀ inputs, Move.begin inputs ∉ schedule) :
    Follows s (x.play schedule) := by
  induction schedule generalizing x with
  | nil => exact hx
  | cons next schedule ih =>
    refine ih ?_ fun inputs hmem => hbegin inputs (List.mem_cons_of_mem _ hmem)
    cases next with
    | begin inputs => exact absurd List.mem_cons_self (hbegin inputs)
    | engine => exact x.engineMove_act.follows hx
    | call i =>
      obtain ⟨hpoint, flag, hsession, -⟩ := x.callMove_spec i
      unfold Follows Interplay.move
      rw [hpoint, hsession]
      exact hx

/-- A run that is over, in whatever order the engine and the calls acted, is a run with a request
to stop at one of its steps or at none, but for the flag that a late call leaves. -/
theorem run_of_play (hx : x.point = .resting) (inputs : List String)
    (hbegin : ∀ other, Move.begin other ∉ schedule)
    (hover : (x.play (.begin inputs :: schedule)).point = .resting) :
    ∃ signals limit outcome after,
      x.session.run inputs signals limit = (outcome, after) ∧
      x.session.runPaced inputs signals limit = (outcome, after) ∧ outcome.settled = true ∧
      (x.play (.begin inputs :: schedule)).session =
        { after with
          stopRequested := (x.play (.begin inputs :: schedule)).session.stopRequested } := by
  have hu := Session.underway_start x.session inputs
  have hstart : Follows (x.session.start inputs) (x.move (.begin inputs)) := by
    simp only [move, hx]
    rfl
  have hfollows := hstart.play hbegin
  rw [← play_cons, Follows, hover] at hfollows
  generalize (x.play (.begin inputs :: schedule)).session = final at hfollows ⊢
  dsimp only at hfollows
  generalize hstate : final.state = state at hfollows
  generalize hlast : final.phase .running false = last at hfollows
  have hfinal : ∀ flag, final.phase state flag = last.phase state flag := by
    intro flag
    rw [← hlast]
    rfl
  cases hfollows with
  | @halted k outcome _ ending =>
    have hrun := fun pauses => ending.proceed hu pauses (Nat.lt_succ_self k)
    refine ⟨Session.undisturbed, k + 1, outcome, _, hrun false, hrun _, ending.settled, ?_⟩
    rw [← hfinal, ← hstate]
    rfl
  | @interrupted k lines _ steps =>
    have hcut : Session.Cut (· == k + 1) (x.session.start inputs) (k + 1) lines last :=
      ⟨Nat.succ_pos k, by simp, fun i _ hi => by simp; omega, steps⟩
    have hrun := fun pauses => Session.proceed_cut pauses hu hcut (Nat.le_refl _)
    refine ⟨_, k + 1, _, _, hrun false, hrun _, rfl, ?_⟩
    rw [← hfinal, ← hstate]
    rfl

end Runs

/-- A stop that is pending is heeded until the next run begins. Once a call has stored the flag,
at most one more operation is executed while no run begins; after four actions of the engine its
state is not running, and the call returns when it looks. But the flag does not outlast the
beginning of a run: where one begins while the call waits, it can take all its steps, and the call
still waits. -/
theorem stop_heeded_until_next_run {session : Session} (hstate : session.state ≠ .running)
    {schedule : List Move} {i : Nat}
    (hcall : (play { session := session } schedule).calls i = .subscribed) :
    let stored := play { session := session } (schedule ++ [.call i])
    (∀ moves, (∀ inputs, Move.begin inputs ∉ moves) →
      stored.operations moves ≤ 1 ∧
      (4 ≤ moves.count .engine → (stored.play moves).session.state ≠ .running ∧
        (stored.play (moves ++ [.call i])).calls i = .returned)) ∧
    ∀ moves, (stored.play moves).point = .resting → (stored.play moves).calls i = .waiting →
      ∀ inputs k lines last,
        Session.Steps ((stored.play moves).session.start inputs) k lines last →
        let run := [.begin inputs, .engine] ++ List.replicate (2 * k) .engine
        (stored.play moves).operations run = k ∧
        (stored.play (moves ++ run)).session = last ∧
        (stored.play (moves ++ run)).calls i = .waiting := by
  intro stored
  have hcoherent : Coherent stored := Coherent.play (x := { session := session }) hstate _
  have hmove : stored = (play { session := session } schedule).move (.call i) :=
    play_append _ schedule [.call i]
  obtain ⟨hflag, hwaits⟩ := move_subscribed hcall
  rw [← hmove] at hflag hwaits
  refine ⟨?_, ?_⟩
  · intro moves hbegin
    obtain ⟨hone, hleft⟩ := hcoherent.heeds hflag hbegin
    refine ⟨hone, fun hfour => ⟨hleft hfour, ?_⟩⟩
    rw [play_append]
    exact returned_of_not_running (stored_play (.inl hwaits) moves) (hleft hfour)
  · intro moves hresting hwaiting inputs k lines last hsteps run
    obtain ⟨hrun, hoperations⟩ := play_run hresting hsteps
    rw [play_append, hrun]
    exact ⟨hoperations, rfl, hwaiting⟩

def looping : Session :=
  ((Session.ofRam {}).load ["loop: write =7", "jump loop"]).1

/-- A run takes a step, and a call finds it running and subscribes. -/
def asking : List Move :=
  [.begin [], .engine, .engine, .engine, .call 3, .call 3]

/-- The loop jumps back once more and is left; the call that asked for it returns. -/
theorem stop_heeded_until_next_run_looping :
    let stored := play { session := looping } (asking ++ [.call 3])
    looping.state ≠ .running ∧ (play { session := looping } asking).calls 3 = .subscribed ∧
    stored.session.hasNext = true ∧
    stored.operations (List.replicate 4 .engine) ≤ 1 ∧
    (stored.play (List.replicate 4 .engine)).session.state ≠ .running ∧
    (stored.play (List.replicate 4 .engine ++ [.call 3])).calls 3 = .returned := by
  have hstate : looping.state ≠ .running := by decide +kernel
  have hcall : (play { session := looping } asking).calls 3 = .subscribed := by decide +kernel
  have hnext : (play { session := looping } (asking ++ [.call 3])).session.hasNext = true := by
    decide +kernel
  obtain ⟨hheeded, -⟩ := stop_heeded_until_next_run hstate hcall
  obtain ⟨hone, hleft⟩ := hheeded (List.replicate 4 .engine) (by simp)
  obtain ⟨hover, hreturned⟩ := hleft (by simp)
  exact ⟨hstate, hcall, hnext, hone, hover, hreturned⟩

def reading : Session :=
  ((Session.ofRam {}).load ["loop: read 1", "jump loop"]).1

/-- A call finds a run that fails for want of input, and subscribes when it is over. -/
def missing : List Move :=
  [.begin [], .engine, .call 0, .engine, .engine, .call 0]

/-- The call stores the flag, and the next run clears it: that run executes one operation after
the other, and never leaves its state, while the call waits. -/
theorem pending_stop_lost :
    let stored := play { session := reading } (missing ++ [.call 0])
    let run := stored.play [.begin ["1", "2"], .engine]
    let during := List.replicate 3 Move.engine
    (play { session := reading } missing).calls 0 = .subscribed ∧
    stored.session.stopRequested = true ∧ stored.calls 0 = .waiting ∧
    (∀ n < 4, (run.play (during.take n)).session.state = .running ∧
      (run.play (during.take n)).calls 0 = .waiting) ∧
    run.operations during = 2 := by
  decide +kernel

end RegisterMachine.Interplay

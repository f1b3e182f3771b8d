import RegisterMachine.Proofs.Dispatching
import RegisterMachine.Proofs.Endings
import RegisterMachine.Proofs.LateStops

namespace RegisterMachine

theorem Outcome.behind_behind (outcome : Outcome) (first second : List String) :
    (outcome.behind second).behind first = outcome.behind (first ++ second) := by
  cases outcome <;> simp [Outcome.behind]

/-- Whether an answer is there; a run that was only out of fuel still goes on. -/
def Reply.settled : Reply → Bool
  | .ran outcome => outcome.settled
  | .done | .loaded _ | .stepped _ | .wrote _ => true

/-- Whether a request determines the lifecycle state. -/
def Request.governs : Request → Bool
  | .load _ | .reset | .run _ _ _ | .runPaced _ _ _ => true
  | .setInputs _ | .step | .requestStop | .write _ | .edit _ => false

namespace Session

/-- What a run comes to that hears signals, and the state that it leaves. It completes or fails
if no signal ends it at a step that succeeds; else it is stopped or dropped behind the first such
step. -/
inductive Settles (pauses : Bool) (signals : Nat → Signal) (s : Session) :
    Outcome → Lifecycle → Prop
  | ended {k : Nat} {outcome : Outcome} {t : Session} (ending : Ending s k outcome t)
      (quiet : ∀ i, 0 < i → i ≤ k → (signals i).ends pauses = false) :
      Settles pauses signals s outcome .halted
  | stopped {k : Nat} {lines : List String} {t : Session} (steps : Steps s (k + 1) lines t)
      (quiet : ∀ i, 0 < i → i ≤ k → (signals i).ends pauses = false)
      (signal : signals (k + 1) = .stop) :
      Settles pauses signals s (.finished (lines ++ [interruptionNotice])) .interrupted
  | dropped {k : Nat} {lines : List String} {t : Session} (pausing : pauses = true)
      (steps : Steps s (k + 1) lines t)
      (quiet : ∀ i, 0 < i → i ≤ k → (signals i).ends pauses = false)
      (signal : signals (k + 1) = .abandon) :
      Settles pauses signals s .abandoned .interrupted

section
variable {pauses : Bool} {signals : Nat → Signal} {s t : Session} {outcome : Outcome}
  {state : Lifecycle}

theorem Settles.phase (h : Settles pauses signals s outcome state) (other : Lifecycle)
    (flag : Bool) : Settles pauses signals (s.phase other flag) outcome state := by
  cases h with
  | ended ending quiet => exact .ended (ending.phase other flag) quiet
  | stopped steps quiet signal => exact .stopped (steps.phase other flag) quiet signal
  | dropped pausing steps quiet signal =>
    exact .dropped pausing (steps.phase other flag) quiet signal

/-- A step that succeeds and that no signal ends comes before what the rest of the run comes to. -/
theorem Settles.cons {line : Option String} (hstep : s.step = (.ok line, t))
    (hq : (signals 1).ends pauses = false)
    (h : Settles pauses (fun i => signals (i + 1)) t outcome state) :
    Settles pauses signals s (outcome.behind line.toList) state := by
  have hlater : ∀ k, (∀ i, 0 < i → i ≤ k → (signals (i + 1)).ends pauses = false) →
      ∀ i, 0 < i → i ≤ k + 1 → (signals i).ends pauses = false := by
    intro k hquiet i hi hk
    obtain ⟨j, rfl⟩ := Nat.exists_eq_add_one_of_ne_zero (Nat.ne_of_gt hi)
    rcases Nat.eq_zero_or_pos j with rfl | hj
    · exact hq
    · exact hquiet j hj (Nat.le_of_succ_le_succ hk)
  cases h with
  | @ended k _ u ending quiet =>
    have hend := Ending.prepend (.cons hstep (.refl t)) ending
    rw [List.append_nil, Nat.zero_add, Nat.add_comm 1 k] at hend
    exact .ended hend (hlater k quiet)
  | @stopped k lines u steps quiet signal =>
    rw [Outcome.behind, ← List.append_assoc]
    exact .stopped (.cons hstep steps) (hlater k quiet) signal
  | @dropped k lines u pausing steps quiet signal =>
    exact .dropped pausing (.cons hstep steps) (hlater k quiet) signal

/-- Where there is nothing to execute, a run has completed; whatever signals it hears, it has
taken no step that one of them could end. -/
theorem settles_atEnd (hn : s.hasNext = false) :
    Settles pauses signals s (.finished []) .halted :=
  .ended (.finished (.refl s) hn) fun _ hi hle => absurd hle (Nat.not_le_of_gt hi)

theorem settles_failing {fault : Fault} (hn : s.hasNext = true) (h : s.step = (.error fault, t)) :
    Settles pauses signals s (.failed fault) .halted :=
  .ended (.failed (.refl s) hn h) fun _ hi hle => absurd hle (Nat.not_le_of_gt hi)

theorem settles_cut {line : Option String} (h : s.step = (.ok line, t))
    (hs : (signals 1).ends pauses = true) :
    Settles pauses signals s (cutOutcome (signals 1) line.toList) .interrupted := by
  have hone : Steps s 1 line.toList t := by
    simpa using Steps.cons h (.refl t)
  have hnone : ∀ i, 0 < i → i ≤ 0 → (signals i).ends pauses = false :=
    fun _ hi hle => absurd hle (Nat.not_le_of_gt hi)
  cases hsignal : signals 1 with
  | quiet =>
    rw [hsignal] at hs
    cases hs
  | stop =>
    have hlines : (interruptionNotice :: line.toList).reverse =
        line.toList ++ [interruptionNotice] := by
      cases line <;> rfl
    rw [cutOutcome, hlines]
    exact .stopped hone hnone hsignal
  | abandon =>
    rw [hsignal] at hs
    exact .dropped hs hone hnone hsignal

theorem cutOutcome_behind (signal : Signal) (line : Option String) (emitted : List String) :
    cutOutcome signal (line.toList ++ emitted) =
      (cutOutcome signal line.toList).behind emitted.reverse := by
  cases signal <;> cases line <;> simp [cutOutcome, Outcome.behind]

/-- A run that is over has settled, behind the lines that it had emitted before. -/
theorem proceed_settles {fuel taken : Nat} {emitted : List String} (hu : Underway s)
    (hrun : proceed pauses signals fuel taken emitted s = (outcome, t))
    (hsettled : outcome.settled = true) :
    ∃ result, Settles pauses (fun i => signals (taken + i)) s result t.state ∧
      outcome = result.behind emitted.reverse := by
  induction fuel, taken, emitted, s, hu using proceed_induction pauses signals with
  | atEnd fuel taken emitted s hu hn =>
    rw [proceed_end hn] at hrun
    cases hrun
    exact ⟨_, settles_atEnd hn, by rw [Outcome.behind, List.append_nil]⟩
  | spent taken emitted s hu hn =>
    rw [proceed_spent hn] at hrun
    cases hrun
    cases hsettled
  | fails fuel taken emitted s hu fault u hn hstep =>
    rw [proceed_fail hu hn hstep] at hrun
    cases hrun
    exact ⟨_, settles_failing hn hstep, rfl⟩
  | ended fuel taken emitted s hu line u hstep hs =>
    rw [proceed_ended hu hstep hs] at hrun
    cases hrun
    exact ⟨_, settles_cut hstep hs, cutOutcome_behind _ line emitted⟩
  | round fuel taken emitted s hu line u hut hstep hs ih =>
    rw [proceed_round hu hstep hs] at hrun
    obtain ⟨result, hresult, houtcome⟩ := ih hrun
    have hshift : (fun i => signals (taken + 1 + i)) =
        fun i => (fun i => signals (taken + i)) (i + 1) := by
      funext i
      rw [Nat.add_right_comm, Nat.add_assoc]
    rw [hshift] at hresult
    refine ⟨_, hresult.cons hstep hs, ?_⟩
    rw [houtcome, Outcome.behind_behind]
    cases line <;> simp

/-- A signal ends a run or does not. -/
theorem Settles.state_unique {outcome' : Outcome} {state' : Lifecycle}
    (h : Settles pauses signals s outcome state) (h' : Settles pauses signals s outcome' state') :
    state = state' := by
  have hcut : ∀ {k j : Nat} {result : Outcome} {lines : List String} {u v : Session},
      Ending s k result u → (∀ i, 0 < i → i ≤ k → (signals i).ends pauses = false) →
      Steps s (j + 1) lines v → (signals (j + 1)).ends pauses = true → False := by
    intro k j result lines u v ending quiet steps hends
    rw [quiet (j + 1) (Nat.succ_pos j) (ending.le steps)] at hends
    cases hends
  cases h with
  | ended ending quiet =>
    cases h' with
    | ended _ _ => rfl
    | stopped steps _ signal =>
      exact (hcut ending quiet steps (by rw [signal]; rfl)).elim
    | dropped pausing steps _ signal =>
      exact (hcut ending quiet steps (by rw [signal]; exact pausing)).elim
  | stopped steps _ signal =>
    cases h' with
    | ended ending quiet => exact (hcut ending quiet steps (by rw [signal]; rfl)).elim
    | stopped _ _ _ => rfl
    | dropped _ _ _ _ => rfl
  | dropped pausing steps _ signal =>
    cases h' with
    | ended ending quiet => exact (hcut ending quiet steps (by rw [signal]; exact pausing)).elim
    | stopped _ _ _ => rfl
    | dropped _ _ _ _ => rfl

end

/-- The state that a request leaves which determines it: a session that was loaded or reset is
idle, and a run leaves the state in which it settles with the outcome that it answers. -/
inductive LeftBy (s : Session) : Request → Lifecycle → Prop
  | load (lines : List String) : LeftBy s (.load lines) .idle
  | reset : LeftBy s .reset .idle
  | run {inputs : List String} {signals : Nat → Signal} {limit : Nat} {state : Lifecycle}
      (settles : Settles false signals (s.setInputs inputs)
        (s.run inputs signals limit).1 state) :
      LeftBy s (.run inputs signals limit) state
  | runPaced {inputs : List String} {signals : Nat → Signal} {limit : Nat} {state : Lifecycle}
      (settles : Settles s.pauses signals (s.setInputs inputs)
        (s.runPaced inputs signals limit).1 state) :
      LeftBy s (.runPaced inputs signals limit) state

/-- Every run among the requests comes to its end. -/
def Settled (s : Session) (requests : List Request) : Prop :=
  ∀ seen ∈ s.transcript requests, seen.1.settled = true

section
variable {s : Session} {request : Request} {state : Lifecycle}

theorem LeftBy.unique {other : Lifecycle} (h : LeftBy s request state)
    (h' : LeftBy s request other) : state = other := by
  cases h with
  | load lines => cases h'; rfl
  | reset => cases h'; rfl
  | run settles => cases h' with | run settles' => exact settles.state_unique settles'
  | runPaced settles => cases h' with | runPaced settles' => exact settles.state_unique settles'

theorem LeftBy.ne_running (h : LeftBy s request state) : state ≠ .running := by
  have hsettles : ∀ {pauses signals t outcome}, Settles pauses signals t outcome state →
      state ≠ .running := by
    intro pauses signals t outcome settles
    cases settles <;> simp
  cases h with
  | load lines => simp
  | reset => simp
  | run settles => exact hsettles settles
  | runPaced settles => exact hsettles settles

theorem settles_start {pauses : Bool} {inputs : List String} {signals : Nat → Signal}
    {limit : Nat} (h : (proceed pauses signals limit 0 [] (s.start inputs)).1.settled = true) :
    Settles pauses signals (s.setInputs inputs)
      (proceed pauses signals limit 0 [] (s.start inputs)).1
      (proceed pauses signals limit 0 [] (s.start inputs)).2.state := by
  obtain ⟨result, hresult, houtcome⟩ := proceed_settles (underway_start s inputs) rfl h
  have hsame : result.behind [] = result := by cases result <;> rfl
  rw [List.reverse_nil, hsame] at houtcome
  rw [houtcome]
  simp only [Nat.zero_add] at hresult
  exact hresult.phase s.state s.stopRequested

theorem leftBy_obey (hg : request.governs = true) (hr : (s.reply request).settled = true) :
    LeftBy s request (s.obey request).state := by
  cases request with
  | load lines => exact .load lines
  | reset => exact .reset
  | run inputs signals limit => exact .run (settles_start hr)
  | runPaced inputs signals limit => exact .runPaced (settles_start hr)
  | setInputs inputs => cases hg
  | step => cases hg
  | requestStop => cases hg
  | write change => cases hg
  | edit change => cases hg

theorem obey_state (hg : request.governs = false) : (s.obey request).state = s.state := by
  cases request with
  | load lines => cases hg
  | reset => cases hg
  | run inputs signals limit => cases hg
  | runPaced inputs signals limit => cases hg
  | setInputs inputs => rfl
  | step =>
    have hkept : Kept s s.step.2 := step_kept rfl
    exact hkept.state
  | requestStop =>
    change s.requestStop.state = s.state
    unfold requestStop
    split <;> rfl
  | write change => rfl
  | edit change => rfl

theorem obeyAll_state {requests : List Request} (h : ∀ q ∈ requests, q.governs = false) :
    (s.obeyAll requests).state = s.state := by
  induction requests generalizing s with
  | nil => rfl
  | cons request requests ih =>
    rw [List.forall_mem_cons] at h
    exact (ih h.2).trans (obey_state h.1)

theorem obeyAll_ne_running {requests : List Request} (hs : s.state ≠ .running)
    (h : s.Settled requests) : (s.obeyAll requests).state ≠ .running := by
  induction requests generalizing s with
  | nil => exact hs
  | cons request requests ih =>
    rw [Settled, transcript, List.forall_mem_cons] at h
    refine ih ?_ h.2
    cases hg : request.governs with
    | true => exact (leftBy_obey hg h.1).ne_running
    | false => rw [obey_state hg]; exact hs

/-- The last request that determines the state does so whatever comes after it. -/
theorem leftBy_last {before after : List Request}
    (h : s.Settled (before ++ request :: after)) (hg : request.governs = true)
    (hafter : ∀ q ∈ after, q.governs = false) :
    LeftBy (s.obeyAll before) request (s.obeyAll (before ++ request :: after)).state := by
  rw [Settled, transcript_append, transcript] at h
  have hreply : ((s.obeyAll before).reply request).settled = true :=
    h _ (List.mem_append_right _ List.mem_cons_self)
  rw [obeyAll_append]
  have hstate : ((s.obeyAll before).obeyAll (request :: after)).state =
      ((s.obeyAll before).obey request).state := obeyAll_state hafter
  rw [hstate]
  exact leftBy_obey hg hreply

end

/-- Between two requests no run is under way, and the state of a session is the one in which its
last request left it that determines the state: idle if there was none. All other requests keep
the state, and requests to stop that come too late change nothing for those that follow. -/
theorem lifecycle_follows_requests {machine : Machine} {settings : Settings} {new : Session}
    (hnew : Session.create machine settings = .ok new) {history : List Request}
    (hsettled : new.Settled history) :
    (new.obeyAll history).state ≠ .running ∧
    ((∀ q ∈ history, q.governs = false) → (new.obeyAll history).state = .idle) ∧
    (∀ before request after, history = before ++ request :: after → request.governs = true →
      (∀ q ∈ after, q.governs = false) →
      ∀ state, LeftBy (new.obeyAll before) request state ↔ (new.obeyAll history).state = state) ∧
    (∀ request, request.governs = false →
      ((new.obeyAll history).obey request).state = (new.obeyAll history).state) ∧
    LateStopsVanish (new.obeyAll history) := by
  have hidle : new.state = .idle := by
    obtain ⟨table, _, rfl⟩ := create_ok hnew
    rfl
  have hover : (new.obeyAll history).state ≠ .running :=
    obeyAll_ne_running (by rw [hidle]; simp) hsettled
  refine ⟨hover, ?_, ?_, ?_, lateStopsVanish hover⟩
  · intro hnone
    rw [obeyAll_state hnone, hidle]
  · rintro before request after rfl hg hafter state
    have hleft := leftBy_last hsettled hg hafter
    constructor
    · intro h
      exact hleft.unique h
    · rintro rfl
      exact hleft
  · intro request hg
    exact obey_state hg

def preparing : List Request :=
  [.requestStop, .load ["loop: write =7", "jump loop"], .step]

def stopping : Request := .run [] (signalAt 3 .stop) 9

/-- A loop is stopped behind the third step of its run. Neither a single step nor another request
to stop changes what that leaves. -/
theorem lifecycle_follows_requests_stopping :
    (ofRam {}).Settled (preparing ++ stopping :: [.step, .requestStop]) ∧
    LeftBy ((ofRam {}).obeyAll preparing) stopping .interrupted ∧
    LateStopsVanish ((ofRam {}).obeyAll (preparing ++ stopping :: [.step, .requestStop])) := by
  have hsettled : (ofRam {}).Settled (preparing ++ stopping :: [.step, .requestStop]) := by
    unfold Settled
    decide +kernel
  have hall := lifecycle_follows_requests (create_ram {}) hsettled
  refine ⟨hsettled, ?_, hall.2.2.2.2⟩
  have hstate : ((ofRam {}).obeyAll (preparing ++ stopping :: [.step, .requestStop])).state =
      .interrupted := by
    decide +kernel
  exact (hall.2.2.1 preparing stopping [.step, .requestStop] rfl rfl (by simp [Request.governs])
    .interrupted).mpr hstate

end Session

end RegisterMachine

import RegisterMachine.Proofs.Endings
import RegisterMachine.Proofs.TapeUse

namespace RegisterMachine.Session

/-- A run was cut: it was stopped, it was abandoned in a pause, or it ran out of input. -/
inductive CutShort (cut : Session) : Outcome → Prop
  | stopped (emitted : List String) (state : cut.state = .interrupted) :
      CutShort cut (.finished emitted)
  | abandoned : CutShort cut .abandoned
  | exhausted (fault : Fault) (kind : fault.kind = .inputExhausted) : CutShort cut (.failed fault)

/-- What a whole run comes to if its part behind the given lines comes to an outcome: both finish,
or both fail with the same fault up to the count of the tokens consumed. -/
inductive Completes (lines : List String) : Outcome → Outcome → Prop
  | finished (rest : List String) : Completes lines (.finished rest) (.finished (lines ++ rest))
  | failed {fault whole : Fault} (alike : whole.uncounted = fault.uncounted) :
      Completes lines (.failed fault) (.failed whole)

theorem Completes.behind {part whole : Outcome} (h : Completes [] part whole)
    (lines : List String) : Completes lines part (whole.behind lines) := by
  cases h with
  | finished rest => exact .finished rest
  | failed alike => exact .failed alike

section
variable {s t : Session} {k : Nat} {outcome : Outcome} {tape : Tape}

/-- Steps that differ only in what was consumed before them end alike. -/
theorem Ending.onTape (hr : s.table.HandledByRam) (h : Ending s k outcome t)
    (hrest : tape.rest = s.tape.rest) :
    ∃ outcome' moved, Ending (s.setTape tape) k outcome' (t.setTape moved) ∧
      Completes [] outcome outcome' := by
  have hmore : tape.rest = s.tape.rest ++ [] := by rw [hrest, List.append_nil]
  cases h with
  | @finished lines _ steps atEnd =>
    obtain ⟨moved, hsteps, _⟩ := steps.longer hr hmore
    exact ⟨.finished lines, moved, .finished hsteps atEnd, .finished lines⟩
  | failed steps next step =>
    obtain ⟨moved, hsteps, hmoved⟩ := steps.longer hr hmore
    rw [List.append_nil] at hmoved
    obtain ⟨fault', hstep, halike⟩ :=
      step_fails_alike (steps.kept.table ▸ hr) step hmoved
    exact ⟨.failed fault', moved, .failed hsteps next hstep, .failed halike⟩

theorem Endless.onTape (hr : s.table.HandledByRam) (h : Endless s)
    (hrest : tape.rest = s.tape.rest) : Endless (s.setTape tape) := by
  intro k
  obtain ⟨lines, t, hs⟩ := h k
  have hmore : tape.rest = s.tape.rest ++ [] := by rw [hrest, List.append_nil]
  obtain ⟨moved, hsteps, _⟩ := hs.longer hr hmore
  exact ⟨lines, t.setTape moved, hsteps⟩

end

/-- A run that was cut stands behind a number of its steps. -/
theorem CutShort.steps {session cut : Session} (hr : session.table.HandledByRam)
    {inputs : List String} {signals : Nat → Signal} {limit : Nat} {outcome : Outcome}
    (h : CutShort cut outcome)
    (hrun : session.run inputs signals limit = (outcome, cut) ∨
      session.runPaced inputs signals limit = (outcome, cut)) :
    ∃ k lines last state flag, Steps (session.setInputs inputs) k lines last ∧
      cut = last.phase state flag ∧
      ∀ emitted, outcome = .finished emitted → emitted = lines ++ [interruptionNotice] := by
  obtain ⟨k, lines, last, hs, hstand⟩ := run_standing hrun
  -- A run keeps its own lifecycle state, which single steps on the input do not see.
  have hsteps : Steps (session.setInputs inputs) k lines
      (last.phase session.state session.stopRequested) :=
    hs.phase session.state session.stopRequested
  cases hstand with
  | ended atEnd =>
    cases h with
    | stopped emitted state => cases state
  | stopped => exact ⟨k, lines, _, _, _, hsteps, rfl, fun _ he => (Outcome.finished.inj he).symm⟩
  | abandoned => exact ⟨k, lines, _, _, _, hsteps, rfl, fun _ he => nomatch he⟩
  | failed next step flag =>
    obtain rfl := step_atomic (hs.kept.table ▸ hr) step
    exact ⟨k, lines, _, _, _, hsteps, rfl, fun _ he => nomatch he⟩
  | unfinished next => cases h

/-- A run can be cut and resumed without loss or repetition. Whatever cut a run on `ts`, it stands
behind some of its steps. A run from there on what is left of `ts`, and `us` behind it, and a run
from the first on all of the input both go on for ever, or both end with the same memory and count
of steps; if they finish, the lines of the cut run come before those of the resumed one. -/
theorem cut_run_resumes {session cut : Session} (hr : session.table.HandledByRam)
    {ts : List String} {signals : Nat → Signal} {limit : Nat} {outcome : Outcome}
    (hrun : session.run ts signals limit = (outcome, cut) ∨
      session.runPaced ts signals limit = (outcome, cut))
    (hcut : CutShort cut outcome) (us : List String) :
    ∃ k lines last, Steps (session.setInputs ts) k lines last ∧
      cut.memory = last.memory ∧ cut.tape = last.tape ∧ cut.steps = last.steps ∧
      (∀ emitted, outcome = .finished emitted → emitted = lines ++ [interruptionNotice]) ∧
      ((Diverges (cut.run (ts.drop cut.tape.cursor ++ us) undisturbed ·) ∧
          Diverges (session.run (ts ++ us) undisturbed ·)) ∨
        ∃ resumed whole after after',
          EndsWith (cut.run (ts.drop cut.tape.cursor ++ us) undisturbed ·) resumed after ∧
          EndsWith (session.run (ts ++ us) undisturbed ·) whole after' ∧
          after.memory = after'.memory ∧ after.steps = after'.steps ∧
          Completes lines resumed whole) := by
  obtain ⟨k, lines, last, state, flag, hs, rfl, hlines⟩ := hcut.steps hr hrun
  refine ⟨k, lines, last, hs, rfl, rfl, rfl, hlines, ?_⟩
  have hfirst : (session.setInputs ts).table.HandledByRam := hr
  have hlast : (last.setInputs (ts.drop last.tape.cursor ++ us)).table.HandledByRam :=
    hs.kept.table.symm ▸ hr
  have htokens : last.tape.tokens = some ts.toArray := hs.tokens hfirst
  have hleft : last.tape.rest = ts.drop last.tape.cursor := by simp [Tape.rest, htokens]
  -- The whole run takes the same steps and then has the same input before it as the resumed one.
  have hstart : (Tape.ofList (ts ++ us)).rest = (session.setInputs ts).tape.rest ++ us := by
    rw [Tape.rest_ofList]
    exact congrArg (· ++ us) (Tape.rest_ofList ts).symm
  obtain ⟨moved, hwhole, hmoved⟩ := hs.longer hfirst hstart
  have hsame : moved.rest = (last.setInputs (ts.drop last.tape.cursor ++ us)).tape.rest := by
    rw [hmoved, hleft]
    exact (Tape.rest_ofList _).symm
  rcases ending_or_endless (last.setInputs (ts.drop last.tape.cursor ++ us)) with
    ⟨n, resumed, t, hend⟩ | hendless
  · obtain ⟨whole, far, hfar, hcompletes⟩ := hend.onTape hlast hsame
    have hresumed : Ending
        ((last.phase state flag).setInputs (ts.drop last.tape.cursor ++ us)) n resumed
        (t.phase state flag) :=
      hend.phase state flag
    exact .inr ⟨resumed, whole.behind lines, _, _, hresumed.run,
      (Ending.prepend hwhole hfar).run, rfl, rfl, hcompletes.behind lines⟩
  · have hresumed : Endless
        ((last.phase state flag).setInputs (ts.drop last.tape.cursor ++ us)) :=
      hendless.phase state flag
    have hfar := hendless.onTape hlast hsame
    exact .inl ⟨hresumed.run, (Endless.prepend hwhole hfar).run⟩

/-- A session that gives back two numbers of its input. -/
def echoing : Session where
  machine := "RAM"
  settings := { maxSteps := some 9 }
  table := Ram.table
  workspace := {}
  program := ⟨#[{ opcode := "READ", value := some 1, raw := "READ 1", line := 1 },
                { opcode := "WRITE", value := some 1, raw := "WRITE 1", line := 2 },
                { opcode := "READ", value := some 1, raw := "READ 1", line := 3 },
                { opcode := "WRITE", value := some 1, raw := "WRITE 1", line := 4 }]⟩

/-- The fault of its second `READ`, if there is but one number. -/
def starved : Fault :=
  ((Problem.inputExhausted 1).fault.raisedIn "ram::read").atOperation
    { opcode := "READ", value := some 1, raw := "READ 1", line := 3 }

/-- The input gives out before the second number; given that number alone, the run goes on. -/
theorem cut_run_resumes_echoing :
    ∃ fault cut, echoing.run ["3"] undisturbed 9 = (.failed fault, cut) ∧
      fault.kind = .inputExhausted ∧ cut.steps = 2 ∧ cut.tape.cursor = 1 ∧
      ∃ lines resumed whole after after',
        EndsWith (cut.run ["4"] undisturbed ·) resumed after ∧
        EndsWith (echoing.run ["3", "4"] undisturbed ·) whole after' ∧
        after.memory = after'.memory ∧ after.steps = after'.steps ∧
        Completes lines resumed whole := by
  obtain ⟨fault, cut, hrun, hkind, hsteps, hcursor, hsettled⟩ : ∃ fault cut,
      echoing.run ["3"] undisturbed 9 = (.failed fault, cut) ∧ fault.kind = .inputExhausted ∧
        cut.steps = 2 ∧ cut.tape.cursor = 1 ∧ (cut.run ["4"] undisturbed 9).1.settled = true := by
    refine ⟨starved, (echoing.run ["3"] undisturbed 9).2, Prod.ext ?_ rfl, rfl, ?_, ?_, ?_⟩
    all_goals decide +kernel
  obtain ⟨_, lines, _, _, _, _, _, _, hdiverge | hend⟩ :=
    cut_run_resumes OpcodeTable.handledByRam_ram (.inl hrun) (.exhausted fault hkind) ["4"]
  · rw [hcursor] at hdiverge
    have hnever : (cut.run ["4"] undisturbed 9).1.settled = false := hdiverge.1 9
    rw [hsettled] at hnever
    cases hnever
  · rw [hcursor] at hend
    exact ⟨fault, cut, hrun, hkind, hsteps, hcursor, lines, hend⟩

end RegisterMachine.Session

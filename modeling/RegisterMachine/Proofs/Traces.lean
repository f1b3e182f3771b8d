import RegisterMachine.Proofs.Endings
import RegisterMachine.Proofs.LoadedPrograms
import RegisterMachine.Session.Trace

namespace RegisterMachine

theorem TraceRow.lines_reverse_cons (row : TraceRow) (taken : List TraceRow) :
    (TraceRow.lines (row :: taken).reverse).reverse =
      row.line.toList ++ (TraceRow.lines taken.reverse).reverse := by
  cases h : row.line <;> simp [TraceRow.lines, h]

/-- The lifecycle state in which a run is left that nothing disturbs. -/
def Outcome.closing (outcome : Outcome) : Lifecycle :=
  if outcome.settled then .halted else .running

namespace Session

theorem Kept.phase_eq {s t : Session} (h : Kept s t) :
    t.phase s.state s.stopRequested = t := by
  rw [← h.state, ← h.stopRequested]
  rfl

/-- What single steps come to behind which the given rows stand. The lines of a run that did not
fail are those that the rows show. -/
inductive Told (rows : List TraceRow) : Outcome → Prop
  | finished : Told rows (.finished (TraceRow.lines rows))
  | failed (fault : Fault) : Told rows (.failed fault)
  | unfinished : Told rows (.unfinished (TraceRow.lines rows))

section
variable {s t : Session} {fuel : Nat} {taken : List TraceRow}

theorem traceFrom_end (h : s.hasNext = false) :
    s.traceFrom fuel taken = (taken.reverse, .finished (TraceRow.lines taken.reverse), s) := by
  have hn : s.next? = none := by simpa [hasNext] using h
  unfold traceFrom
  simp [hn]

theorem traceFrom_spent (h : s.hasNext = true) :
    s.traceFrom 0 taken = (taken.reverse, .unfinished (TraceRow.lines taken.reverse), s) := by
  obtain ⟨operation, hn⟩ := Option.isSome_iff_exists.mp h
  unfold traceFrom
  simp [hn]

theorem traceFrom_fail {fault : Fault} (hn : s.hasNext = true)
    (h : s.step = (.error fault, t)) :
    s.traceFrom (fuel + 1) taken = (taken.reverse, .failed fault, t) := by
  obtain ⟨operation, hop⟩ := Option.isSome_iff_exists.mp hn
  rw [traceFrom]
  simp [hop, h]

/-- A step that succeeds adds a row that shows its operation and its line. -/
theorem traceFrom_round {line : Option String} (h : s.step = (.ok line, t)) (fuel : Nat)
    (taken : List TraceRow) :
    ∃ row : TraceRow, row.line = line ∧
      (∃ operation ∈ s.program.operations, row.raw = operation.raw) ∧
      s.traceFrom (fuel + 1) taken = t.traceFrom fuel (row :: taken) := by
  obtain ⟨operation, _, hop, _⟩ := step_ok h
  refine ⟨⟨s.memory.instructionPointer, operation.raw, t.memory.accumulator, line⟩, rfl,
    ⟨operation, Program.mem_of_at? hop, rfl⟩, ?_⟩
  rw [traceFrom]
  simp [hop, h]

theorem proceed_phase_end (pauses : Bool) (count : Nat) (h : s.hasNext = false) :
    proceed pauses undisturbed fuel count (TraceRow.lines taken.reverse).reverse
      (s.phase .running false) =
        (.finished (TraceRow.lines taken.reverse), s.phase .halted false) := by
  have hn : (s.phase .running false).hasNext = false := h
  rw [proceed_end hn, List.reverse_reverse]
  rfl

/-- Single steps while there is a next operation and a run that nothing disturbs come to the same
with the same fuel. The steps keep the lifecycle state and the stop flag; the run does not. -/
theorem traceFrom_retells (pauses : Bool) (count : Nat) {rows : List TraceRow}
    {outcome : Outcome} (h : s.traceFrom fuel taken = (rows, outcome, t)) :
    Told rows outcome ∧ Kept s t ∧
      proceed pauses undisturbed fuel count (TraceRow.lines taken.reverse).reverse
        (s.phase .running false) = (outcome, t.phase outcome.closing false) := by
  have hu : Underway (s.phase .running false) := ⟨rfl, rfl⟩
  have hsame : (s.phase .running false).hasNext = s.hasNext := rfl
  -- Both loops spend one unit of fuel a step, and the rows taken hold the lines emitted so far.
  induction fuel generalizing s taken count with
  | zero =>
    cases hn : s.hasNext with
    | true =>
      rw [traceFrom_spent hn] at h
      cases h
      refine ⟨.unfinished, Kept.refl _, ?_⟩
      rw [proceed_spent (hsame.trans hn), List.reverse_reverse]
      rfl
    | false =>
      rw [traceFrom_end hn] at h
      cases h
      exact ⟨.finished, Kept.refl _, proceed_phase_end pauses count hn⟩
  | succ fuel ih =>
    cases hn : s.hasNext with
    | false =>
      rw [traceFrom_end hn] at h
      cases h
      exact ⟨.finished, Kept.refl _, proceed_phase_end pauses count hn⟩
    | true =>
      obtain ⟨r, u, hstep⟩ : ∃ r u, s.step = (r, u) := ⟨_, _, rfl⟩
      have hphase : (s.phase .running false).step = (r, u.phase .running false) := by
        rw [step_phase, hstep]
      cases r with
      | error fault =>
        rw [traceFrom_fail hn hstep] at h
        cases h
        refine ⟨.failed fault, step_kept hstep, ?_⟩
        rw [proceed_fail hu (hsame.trans hn) hphase]
        rfl
      | ok line =>
        obtain ⟨row, rfl, -, hround⟩ := traceFrom_round hstep fuel taken
        rw [hround] at h
        obtain ⟨htold, hkept, hrun⟩ := ih (count + 1) h ⟨rfl, rfl⟩ rfl
        refine ⟨htold, (step_kept hstep).trans hkept, ?_⟩
        rw [proceed_round hu hphase rfl, ← TraceRow.lines_reverse_cons, hrun]

end

section
variable {s t : Session} {inputs : List String} {limit k : Nat} {rows : List TraceRow}
  {outcome : Outcome}

theorem trace_retells_run (h : s.trace inputs limit = (rows, outcome, t)) :
    s.run inputs undisturbed limit = (outcome, t.phase outcome.closing false) :=
  (traceFrom_retells false 0 h).2.2

theorem trace_kept (h : s.trace inputs limit = (rows, outcome, t)) :
    Kept (s.setInputs inputs) t :=
  (traceFrom_retells false 0 h).2.1

theorem Ending.kept (h : Ending s k outcome t) : Kept s t := by
  cases h with
  | finished steps atEnd => exact steps.kept
  | failed steps next step => exact steps.kept.trans (step_kept step)

/-- Single steps end where the steps that can be taken end, and leave the state as it was. -/
theorem Ending.trace (h : Ending (s.setInputs inputs) k outcome t) :
    EndsWith (fun limit => (s.trace inputs limit).2) outcome t := by
  obtain ⟨hsettled, n, hrun⟩ := h.run
  refine ⟨hsettled, n, ?_⟩
  intro limit hn
  obtain ⟨rows, told, u, htrace⟩ : ∃ rows told u, s.trace inputs limit = (rows, told, u) :=
    ⟨_, _, _, rfl⟩
  have hsame := (hrun limit hn).symm.trans (trace_retells_run htrace)
  simp only [Prod.mk.injEq] at hsame
  obtain ⟨rfl, hafter⟩ := hsame
  have hback := congrArg (fun v => v.phase s.state s.stopRequested) hafter
  have hu : u = t :=
    calc u = u.phase s.state s.stopRequested := (trace_kept htrace).phase_eq.symm
      _ = t.phase s.state s.stopRequested := hback.symm
      _ = t := h.kept.phase_eq
  change (s.trace inputs limit).2 = (outcome, t)
  rw [htrace, hu]

theorem Endless.trace (h : Endless (s.setInputs inputs)) :
    Diverges (fun limit => (s.trace inputs limit).2) := by
  intro limit
  obtain ⟨rows, told, u, htrace⟩ : ∃ rows told u, s.trace inputs limit = (rows, told, u) :=
    ⟨_, _, _, rfl⟩
  have hrun : (s.run inputs undisturbed limit).1.settled = false := h.run limit
  rw [trace_retells_run htrace] at hrun
  change (s.trace inputs limit).2.1.settled = false
  rw [htrace]
  exact hrun

end

end Session

end RegisterMachine

import RegisterMachine.Proofs.Runs
import RegisterMachine.Ram.Effects

namespace RegisterMachine

/-- A handler that fails has changed nothing, whatever operation it was given. -/
def Handler.Atomic (handler : Handler) : Prop :=
  ∀ program operation w fault after,
    handler program operation w = .error fault after → after = w

namespace Ram

theorem Deed.atomic (deed : Deed) : Handler.Atomic deed.handler := by
  intro program operation w fault after h
  rw [deed.handler_apply] at h
  exact (Effect.enact_eq_error h).2

theorem entries_atomic : ∀ entry ∈ entries, Handler.Atomic entry.handler :=
  forall_handler Deed.atomic

end Ram

namespace OpcodeTable

/-- Every opcode of a table does what some opcode of the random access machine does; names and
operands may be described otherwise. -/
def HandledByRam (table : OpcodeTable) : Prop :=
  ∀ entry ∈ table.entries, entry.handler ∈ Ram.entries.map Entry.handler

theorem handledByRam_ram : Ram.table.HandledByRam := by
  intro entry he
  exact List.mem_map_of_mem he

theorem dispatch_atomic {table : OpcodeTable} (h : table.HandledByRam) :
    Handler.Atomic table.dispatch := by
  intro program operation w fault after hd
  cases hf : table.find? operation.opcode with
  | none =>
    simp only [dispatch, hf, Action.throw_apply] at hd
    cases hd
    rfl
  | some entry =>
    obtain ⟨known, hk, he⟩ := List.mem_map.mp (h entry (OpcodeTable.mem_of_find? hf))
    rw [dispatch_apply table program operation hf w, ← he] at hd
    split at hd
    · cases hd
    · rename_i fault' after' hh
      cases hd
      exact Ram.entries_atomic known hk program operation w fault' after hh

end OpcodeTable

namespace Session

theorem step_atomic {s t : Session} {fault : Fault} (hr : s.table.HandledByRam)
    (h : s.step = (.error fault, t)) : t = s := by
  rcases step_error h with ⟨_, _, rfl⟩ | ⟨_, _, _, _, _, rfl⟩ | ⟨operation, w, _, _, hd, rfl⟩
  · rfl
  · rfl
  · rw [OpcodeTable.dispatch_atomic hr s.program operation s.workspace fault w hd]

/-- A failing run of such a machine stands where its last successful step left it. -/
theorem failed_run {s u : Session} {signals : Nat → Signal} {limit : Nat} {inputs : List String}
    {fault : Fault} (hr : s.table.HandledByRam)
    (h : s.run inputs signals limit = (.failed fault, u) ∨
      s.runPaced inputs signals limit = (.failed fault, u)) :
    ∃ k lines last flag, Steps (s.setInputs inputs) k lines last ∧ last.hasNext = true ∧
      last.step = (.error fault, last) ∧ u = last.phase .halted flag := by
  obtain ⟨k, lines, last, hs, hstand⟩ := run_standing h
  cases hstand with
  | @failed _ after hn hstep flag =>
    have htable : last.table = s.table := hs.kept.table
    obtain rfl := step_atomic (htable ▸ hr) hstep
    refine ⟨k, lines, after.phase s.state s.stopRequested, flag,
      hs.phase s.state s.stopRequested, hn, ?_, rfl⟩
    rw [step_phase, hstep]

/-- A failing step changes nothing. An operation that fails leaves memory and tape as they were, a
step that fails leaves the whole session, and a run that fails behind `k` steps leaves what these
steps left, with the pointer on the operation that failed. -/
theorem failing_step_changes_nothing {table : OpcodeTable} (hr : table.HandledByRam) :
    (∀ program operation w fault after,
      table.dispatch program operation w = .error fault after → after = w) ∧
    (∀ (session : Session) fault after, session.table = table →
      session.step = (.error fault, after) → after = session) ∧
    (∀ (session : Session) inputs signals limit fault after, session.table = table →
      (session.run inputs signals limit = (.failed fault, after) ∨
        session.runPaced inputs signals limit = (.failed fault, after)) →
      ∃ k lines last operation, Steps (session.setInputs inputs) k lines last ∧
        last.step = (.error fault, last) ∧ last.next? = some operation ∧
        after.memory = last.memory ∧ after.tape = last.tape ∧ after.steps = last.steps ∧
        after.program = session.program ∧ after.next? = some operation ∧
        after.state = .halted) := by
  refine ⟨OpcodeTable.dispatch_atomic hr, ?_, ?_⟩
  · rintro session fault after rfl h
    exact step_atomic hr h
  · rintro session inputs signals limit fault after rfl h
    obtain ⟨k, lines, last, flag, hs, hn, hstep, rfl⟩ := failed_run hr h
    obtain ⟨operation, hop⟩ := Option.isSome_iff_exists.mp hn
    exact ⟨k, lines, last, operation, hs, hstep, hop, rfl, rfl, rfl, hs.kept.program, hop, rfl⟩

/-- A session whose only opcode reads a number but takes no operand to say where it goes. -/
def grabbing : Session where
  machine := "GRAB"
  settings := {}
  table := .ofEntries .sensitive [⟨.bare "GRAB", Ram.read⟩] (by decide +kernel)
  workspace := { tape := .ofList ["4"] }
  program := ⟨#[{ opcode := "GRAB", raw := "GRAB", line := 1 }]⟩

theorem grabbing_handled : grabbing.table.HandledByRam := by
  simp [OpcodeTable.HandledByRam, grabbing, OpcodeTable.ofEntries, Ram.entries]

/-- The token is a number, but there is no register for it: it stays on the tape. -/
theorem failing_step_changes_nothing_grabbing :
    grabbing.table.HandledByRam ∧ grabbing.step.1.isOk = false ∧ grabbing.step.2 = grabbing := by
  have h : ∃ fault, grabbing.step = (.error fault, grabbing.step.2) := ⟨_, rfl⟩
  obtain ⟨fault, hfault⟩ := h
  refine ⟨grabbing_handled, rfl, ?_⟩
  exact (failing_step_changes_nothing grabbing_handled).2.1 grabbing fault _ rfl hfault

end Session

end RegisterMachine

import RegisterMachine.Proofs.FailingSteps
import RegisterMachine.Proofs.FaultNotes
import RegisterMachine.Proofs.RamCommands

namespace RegisterMachine

def Textbook.Command.label? : Command → Option String
  | .jump label | .jumpIfZero label | .jumpIfPositive label => some label
  | _ => none

namespace Ram
open Textbook (Cell Command)

/-- All that can be wrong with an operation that means a command, and when it is. -/
inductive Hazard (program : Program) (instruction : Instruction) (command : Command)
    (w : Workspace) : Problem → Prop
  | negativeRegister {number : Int64} (hmode : instruction.mode = .pointer)
      (hvalue : instruction.value = some number) (hnumber : 0 ≤ number)
      (h : w.memory.get number.toUInt64 < 0) :
      Hazard program instruction command w (.negativeRegister (w.memory.get number.toUInt64))
  | labelNotFound {label : String} (hlabel : command.label? = some label)
      (htarget : instruction.target = some label) (h : program.findLabel label = none) :
      Hazard program instruction command w (.labelNotFound label)
  | divisionByZero (h : operand w.memory instruction = .ok 0) :
      Hazard program instruction command w .divisionByZero
  | arithmeticOverflow {right : Int64} (symbol : String)
      (h : operand w.memory instruction = .ok right) :
      Hazard program instruction command w
        (.arithmeticOverflow symbol w.memory.accumulator right)
  | inputExhausted (h : w.tape.peek = none) :
      Hazard program instruction command w (.inputExhausted w.tape.cursor)
  | invalidInput {token : String} {fault : Text.IntegerFault} (h : w.tape.peek = some token)
      (hfault : Text.readInt64 (Text.trim token) = .error fault) :
      Hazard program instruction command w (.invalidInput token fault)

section
variable {program : Program} {operation : Operation} {command : Command} {w after : Workspace}
  {problem : Problem} {fault : Fault}

theorem destination_hazard {cell : Cell} (hc : cell? operation.toInstruction = some cell)
    (h : destination w.memory operation.toInstruction = .error problem) :
    Hazard program operation.toInstruction command w problem := by
  obtain ⟨number, hv, hnumber, ⟨_, _, hd⟩ | ⟨hm, _, hd⟩⟩ := destination_of_cell w.memory hc
  · rw [hd] at h
    cases h
  · rw [hd, registerAt] at h
    split at h
    · rename_i hneg
      cases h
      exact .negativeRegister hm hv hnumber hneg
    · cases h

theorem operand_hazard {o : Textbook.Operand} (ho : operand? operation.toInstruction = some o)
    (h : operand w.memory operation.toInstruction = .error problem) :
    Hazard program operation.toInstruction command w problem := by
  rcases operand_of_operand? w.memory ho with ⟨value, _, hv⟩ | ⟨cell, hc, _, hv⟩
  · rw [hv] at h
    cases h
  · rw [hv] at h
    cases hd : destination w.memory operation.toInstruction with
    | error problem' =>
      rw [hd] at h
      cases h
      exact destination_hazard hc hd
    | ok address =>
      rw [hd] at h
      cases h

theorem arithmetic_hazard {symbol : String} {apply : Int → Int → Int} {o : Textbook.Operand}
    (ho : operand? operation.toInstruction = some o)
    (h : arithmetic symbol apply program operation w = .error fault after) :
    ∃ problem, fault.Shows problem ∧
      Hazard program operation.toInstruction command w problem := by
  rw [arithmetic_apply, computed] at h
  split at h
  · rename_i problem hv
    cases h
    exact ⟨problem, Fault.shows_fault _, operand_hazard ho hv⟩
  · rename_i right hv
    split at h
    · cases h
      exact ⟨_, Fault.shows_fault _, .arithmeticOverflow symbol hv⟩
    · cases h

theorem jump_hazard {label : String} (hl : command.label? = some label)
    (ht : operation.target = some label) (h : jump program operation w = .error fault after) :
    ∃ problem, fault.Shows problem ∧
      Hazard program operation.toInstruction command w problem := by
  rw [jump_apply, aimed, ht] at h
  simp only at h
  split at h
  · rename_i hfind
    cases h
    exact ⟨_, Fault.shows_raisedIn _ _, .labelNotFound hl ht hfind⟩
  · cases h

theorem jumpIf_hazard {condition : Int64 → Bool} {label : String}
    (hl : command.label? = some label) (ht : operation.target = some label)
    (h : jumpIf condition program operation w = .error fault after) :
    ∃ problem, fault.Shows problem ∧
      Hazard program operation.toInstruction command w problem := by
  rw [jumpIf_apply, Deed.effect] at h
  split at h
  · rw [← jump_apply] at h
    exact jump_hazard hl ht h
  · cases h

/-- A handler fails on what it serves only for one of the known reasons. -/
theorem Serves.hazard {handler : Handler} (hs : Serves operation.toInstruction handler command)
    (h : handler program operation w = .error fault after) :
    ∃ problem, fault.Shows problem ∧
      Hazard program operation.toInstruction command w problem := by
  cases hs with
  | load ho =>
    rw [load_apply, Deed.effect] at h
    split at h
    · rename_i problem hv
      cases h
      exact ⟨problem, Fault.shows_fault _, operand_hazard ho hv⟩
    · cases h
  | store hc =>
    rw [store_apply, Deed.effect] at h
    split at h
    · rename_i problem hd
      cases h
      exact ⟨problem, Fault.shows_fault _, destination_hazard hc hd⟩
    · cases h
  | add ho => exact arithmetic_hazard ho h
  | sub ho => exact arithmetic_hazard ho h
  | mul ho => exact arithmetic_hazard ho h
  | div ho =>
    rw [div_apply, Deed.effect] at h
    split at h
    · rename_i problem hv
      cases h
      exact ⟨problem, Fault.shows_fault _, operand_hazard ho hv⟩
    · rename_i divisor hv
      split at h
      · rename_i hzero
        cases h
        exact ⟨_, Fault.shows_raisedIn _ _, .divisionByZero (hzero ▸ hv)⟩
      · rw [← arithmetic_apply program] at h
        exact arithmetic_hazard ho h
  | read hc =>
    rw [read_apply, Deed.effect] at h
    split at h
    · rename_i hpeek
      cases h
      exact ⟨_, Fault.shows_raisedIn _ _, .inputExhausted hpeek⟩
    · rename_i token hpeek
      split at h
      · rename_i reason hread
        cases h
        exact ⟨_, Fault.shows_raisedIn _ _, .invalidInput hpeek hread⟩
      · split at h
        · rename_i problem hd
          cases h
          exact ⟨problem, Fault.shows_fault _, destination_hazard hc hd⟩
        · cases h
  | write ho =>
    rw [write_apply, Deed.effect] at h
    split at h
    · rename_i problem hv
      cases h
      exact ⟨problem, Fault.shows_fault _, operand_hazard ho hv⟩
    · cases h
  | jump ht => exact jump_hazard rfl ht h
  | jumpIfZero ht => exact jumpIf_hazard rfl ht h
  | jumpIfPositive ht => exact jumpIf_hazard rfl ht h
  | halt => cases h

end

theorem opcode_of_label? {instruction : Instruction} {command : Command} {label : String}
    (h : command? instruction = some command) (hl : command.label? = some label) :
    instruction.opcode ∈ ["JUMP", "JZERO", "JGTZ"] := by
  unfold command? at h
  split at h
  all_goals first
    | (rename_i hop; simp [hop]; done)
    | (obtain ⟨_, _, rfl⟩ := Option.map_eq_some_iff.mp h; cases hl)
    | (cases h; cases hl)
    | cases h

section
variable {session after : Session} {fault : Fault}

/-- A step at an operation of a loaded program fails at the limit, or because something is wrong
with the operation; the fault says which and names the operation. -/
theorem step_hazard (hram : session.table = table) (hshaped : session.program.ShapedBy table)
    (hn : session.hasNext = true) (h : session.step = (.error fault, after)) :
    ∃ operation problem, session.next? = some operation ∧ fault.ShowsAt problem operation ∧
      ((∃ limit, problem = .stepLimitExceeded limit) ∨
        ∃ command, command? operation.toInstruction = some command ∧
          Hazard session.program operation.toInstruction command session.workspace problem) := by
  rcases Session.step_error h with ⟨hnone, _, _⟩ | ⟨operation, limit, hop, _, rfl, _⟩ |
    ⟨operation, w, hop, _, hd, _⟩
  · rw [Session.hasNext, hnone] at hn
    cases hn
  · exact ⟨operation, _, hop, (Fault.shows_raisedIn _ _).atOperation operation, .inl ⟨limit, rfl⟩⟩
  · obtain ⟨entry, command, hfind, hcommand, hserves⟩ :=
      serves_of_shaped hshaped (Program.mem_of_at? hop)
    rw [hram, OpcodeTable.dispatch_apply table session.program operation hfind] at hd
    split at hd
    · cases hd
    · rename_i raised w' hraised
      cases hd
      obtain ⟨problem, hshows, hhazard⟩ := hserves.hazard hraised
      exact ⟨operation, problem, hop, hshows.atOperation operation,
        .inr ⟨command, hcommand, hhazard⟩⟩

end

/-- The kinds of fault by which a loaded program can fail. -/
def hazards : List Fault.Kind :=
  [.negativeRegister, .labelNotFound, .divisionByZero, .arithmeticOverflow, .inputExhausted,
    .invalidInput, .stepLimitExceeded]

theorem tier_of_mem_hazards {kind : Fault.Kind} (h : kind ∈ hazards) : kind.tier = .runtime := by
  revert kind
  decide

section
variable {program : Program} {instruction : Instruction} {command : Command} {w : Workspace}
  {problem : Problem}

theorem Hazard.kind_mem (h : Hazard program instruction command w problem) :
    problem.kind ∈ hazards := by
  cases h <;> simp [Problem.kind, hazards]

theorem Hazard.negative (h : Hazard program instruction command w problem)
    (hk : problem.kind = .negativeRegister) :
    instruction.mode = .pointer ∧ ∃ number, instruction.value = some number ∧ 0 ≤ number ∧
      w.memory.get number.toUInt64 < 0 := by
  cases h with
  | @negativeRegister number hmode hvalue hnumber hneg =>
    exact ⟨hmode, number, hvalue, hnumber, hneg⟩
  | _ => cases hk

theorem Hazard.missing (h : Hazard program instruction command w problem)
    (hk : problem.kind = .labelNotFound) :
    ∃ label, command.label? = some label ∧ instruction.target = some label ∧
      program.findLabel label = none := by
  cases h with
  | @labelNotFound label hlabel htarget hfind => exact ⟨label, hlabel, htarget, hfind⟩
  | _ => cases hk

end

/-- Loaded programs do not go wrong. Whatever memory, input, limit and count of steps a run starts
with, it fails only in one of the ways that no check of the source can rule out, and its fault
names the one operation on which the pointer still is. A register is negative only behind a
pointer, and a label is missing only if no operation carries it. -/
theorem loaded_program_fails_at_runtime (before session : Session) (lines : List String)
    (hbefore : before.table = table) (hram : session.table = table)
    (hloaded : session.program = (before.load lines).1.program) {inputs : List String}
    {signals : Nat → Signal} {limit : Nat} {fault : Fault} {after : Session}
    (h : session.run inputs signals limit = (.failed fault, after) ∨
      session.runPaced inputs signals limit = (.failed fault, after)) :
    fault.tier = .runtime ∧ fault.kind ∈ hazards ∧
      ∃ operation, after.next? = some operation ∧
        fault.notesUnder "operation" = [operation.line.repr ++ ": " ++ operation.raw] ∧
        fault.notesUnder "line" = [operation.line.repr] ∧
        (fault.kind = .negativeRegister → operation.mode = .pointer ∧
          ∃ number, operation.value = some number ∧ 0 ≤ number ∧
            after.memory.get number.toUInt64 < 0) ∧
        (fault.kind = .labelNotFound → operation.opcode ∈ ["JUMP", "JZERO", "JGTZ"] ∧
          ∃ label, operation.target = some label ∧
            ∀ other ∈ session.program.operations, other.label ≠ some label) := by
  obtain ⟨k, emitted, last, flag, hsteps, hn, hstep, rfl⟩ :=
    Session.failed_run (hram ▸ OpcodeTable.handledByRam_ram) h
  have hprogram : last.program = session.program := hsteps.kept.program
  have hshaped : last.program.ShapedBy table := by
    rw [hprogram, hloaded]
    exact hbefore ▸ Source.parseProgram_shaped before.table _ lines
  obtain ⟨operation, problem, hop, hshows, hwrong⟩ :=
    step_hazard (hsteps.kept.table.trans hram) hshaped hn hstep
  have hkind : fault.kind ∈ hazards := by
    rw [hshows.kind]
    rcases hwrong with ⟨_, rfl⟩ | ⟨_, _, hhazard⟩
    · simp [Problem.kind, hazards]
    · exact hhazard.kind_mem
  refine ⟨?_, hkind, operation, hop, ?_, ?_, ?_, ?_⟩
  · rw [hshows.tier, ← hshows.kind]
    exact tier_of_mem_hazards hkind
  · rw [hshows.text, Operation.text, Text.natural_eq_repr]
  · rw [hshows.line, Text.natural_eq_repr]
  · intro hnegative
    rw [hshows.kind] at hnegative
    rcases hwrong with ⟨_, rfl⟩ | ⟨_, _, hhazard⟩
    · cases hnegative
    · exact hhazard.negative hnegative
  · intro hmissing
    rw [hshows.kind] at hmissing
    rcases hwrong with ⟨_, rfl⟩ | ⟨command, hcommand, hhazard⟩
    · cases hmissing
    · obtain ⟨label, hlabel, htarget, hfind⟩ := hhazard.missing hmissing
      refine ⟨opcode_of_label? hcommand hlabel, label, htarget, ?_⟩
      intro other hother
      exact Program.label_ne_of_findLabel hfind (hprogram ▸ hother)

def unloaded : Session where
  machine := "RAM"
  settings := {}
  table := table
  workspace := {}

/-- A session whose first line is rejected, and whose second goes through a negative register. -/
def straying : Session :=
  (unloaded.load ["LOAD", "LOAD *1"]).1.setMemory (({} : Memory).set 1 (-3))

theorem loaded_program_fails_at_runtime_straying :
    ∃ fault after operation, straying.run [] Session.undisturbed 5 = (.failed fault, after) ∧
      fault.kind = .negativeRegister ∧ after.next? = some operation ∧
      fault.notesUnder "operation" = ["2: LOAD *1"] ∧ fault.notesUnder "line" = ["2"] ∧
      operation.line.repr ++ ": " ++ operation.raw = "2: LOAD *1" ∧
      operation.mode = .pointer := by
  obtain ⟨fault, after, hrun, hkind, htext, hline⟩ : ∃ fault after,
      straying.run [] Session.undisturbed 5 = (.failed fault, after) ∧
        fault.kind = .negativeRegister ∧ fault.notesUnder "operation" = ["2: LOAD *1"] ∧
        fault.notesUnder "line" = ["2"] :=
    ⟨_, _, rfl, rfl, rfl, rfl⟩
  obtain ⟨_, _, operation, hop, hnote, _, hnegative, _⟩ :=
    loaded_program_fails_at_runtime unloaded straying ["LOAD", "LOAD *1"] rfl rfl rfl (.inl hrun)
  have hoperation : operation.line.repr ++ ": " ++ operation.raw = "2: LOAD *1" :=
    List.singleton_inj.mp (hnote.symm.trans htext)
  exact ⟨fault, after, operation, hrun, hkind, hop, htext, hline, hoperation,
    (hnegative hkind).1⟩

end Ram

end RegisterMachine

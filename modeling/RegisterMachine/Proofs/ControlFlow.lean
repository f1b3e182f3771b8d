import RegisterMachine.Proofs.LoadedFaults
import RegisterMachine.Proofs.ReachedTokens
import RegisterMachine.Proofs.Requests

namespace RegisterMachine

/-- The operation at an index carries a label, and none before it does. -/
def Program.FirstLabelled (program : Program) (label : String) (index : Nat) : Prop :=
  (∃ operation, program.operations[index]? = some operation ∧ operation.label = some label) ∧
    ∀ i < index, ∀ operation, program.operations[i]? = some operation →
      operation.label ≠ some label

theorem Program.findLabel_eq_some_iff {program : Program} {label : String} {index : Nat} :
    program.findLabel label = some index ↔ program.FirstLabelled label index := by
  rw [findLabel, Array.findIdx?_eq_some_iff_getElem]
  constructor
  · rintro ⟨hi, hcarries, hbefore⟩
    refine ⟨⟨_, Array.getElem?_eq_getElem hi, by simpa using hcarries⟩, ?_⟩
    intro i hlt operation hop
    obtain ⟨_, rfl⟩ := Array.getElem?_eq_some_iff.mp hop
    simpa using hbefore i hlt
  · rintro ⟨⟨operation, hop, hcarries⟩, hbefore⟩
    obtain ⟨hi, rfl⟩ := Array.getElem?_eq_some_iff.mp hop
    refine ⟨hi, by simpa using hcarries, ?_⟩
    intro i hlt
    simpa using hbefore i hlt _ (Array.getElem?_eq_getElem (Nat.lt_trans hlt hi))

theorem Program.FirstLabelled.lt_size {program : Program} {label : String} {index : Nat}
    (h : program.FirstLabelled label index) : index < program.size := by
  obtain ⟨⟨operation, hop, _⟩, _⟩ := h
  exact (Array.getElem?_eq_some_iff.mp hop).1

namespace Ram

/-- An operation goes to its target: always, or because the accumulator meets its condition. -/
def Jumps (opcode : String) (accumulator : Int64) : Prop :=
  opcode = "JUMP" ∨ opcode = "JZERO" ∧ accumulator = 0 ∨ opcode = "JGTZ" ∧ 0 < accumulator

/-- The place to which an operation leads that succeeds at an index: the first operation that
carries its target, the place beyond the one behind the program, or the next place. -/
inductive Leads (program : Program) (operation : Operation) (accumulator : Int64) (index : Nat) :
    Nat → Prop
  | jump {target : String} {place : Nat} (jumps : Jumps operation.opcode accumulator)
      (aim : operation.target = some target) (first : program.FirstLabelled target place) :
      Leads program operation accumulator index place
  | halt (halts : operation.opcode = "HALT") :
      Leads program operation accumulator index (program.size + 1)
  | next (stays : ¬ Jumps operation.opcode accumulator) (goes : operation.opcode ≠ "HALT") :
      Leads program operation accumulator index (index + 1)

section
variable {program : Program} {operation : Operation} {accumulator : Int64} {index place : Nat}

theorem Leads.le (h : Leads program operation accumulator index place)
    (hi : index < program.size) : place ≤ program.size + 1 := by
  cases h with
  | jump _ _ first => exact Nat.le_succ_of_le (Nat.le_of_lt first.lt_size)
  | halt _ => exact Nat.le_refl _
  | next _ _ => omega

/-- Nothing but halting leads beyond the place behind the program. -/
theorem Leads.halts (h : Leads program operation accumulator index place)
    (hi : index < program.size) (hp : place = program.size + 1) : operation.opcode = "HALT" := by
  cases h with
  | jump _ _ first =>
    have hlt := first.lt_size
    omega
  | halt halts => exact halts
  | next _ _ => omega

end

/-- Operations of a handler that succeed leave the pointer one before the place to which they
lead. -/
def Flows (handler : Handler) (opcode : String) : Prop :=
  ∀ program operation (w : Workspace) line (after : Workspace) (index : Nat),
    operation.opcode = opcode → program.size < 0x7FFFFFFFFFFFFFFF →
    w.memory.instructionPointer.toInt = (index : Int) →
    handler program operation w = .ok line after →
    ∃ place, Leads program operation w.memory.accumulator index place ∧
      after.memory.instructionPointer.toInt = (place : Int) - 1

/-- An operation of this kind goes to its target. -/
def Deed.Jumps (accumulator : Int64) : Deed → Prop
  | .jump => True
  | .jumpIf condition => condition accumulator = true
  | _ => False

/-- What each opcode is called agrees with where it goes. -/
theorem jumps_of_mem_deeds {opcode : String} {deed : Deed} (h : (opcode, deed) ∈ deeds) :
    (∀ accumulator, Jumps opcode accumulator ↔ deed.Jumps accumulator) ∧
      (opcode = "HALT" ↔ deed = .halt) := by
  simp only [deeds, List.mem_cons, List.not_mem_nil, or_false, Prod.mk.injEq] at h
  rcases h with ⟨rfl, rfl⟩ | ⟨rfl, rfl⟩ | ⟨rfl, rfl⟩ | ⟨rfl, rfl⟩ | ⟨rfl, rfl⟩ | ⟨rfl, rfl⟩ |
    ⟨rfl, rfl⟩ | ⟨rfl, rfl⟩ | ⟨rfl, rfl⟩ | ⟨rfl, rfl⟩ | ⟨rfl, rfl⟩ | ⟨rfl, rfl⟩ | ⟨rfl, rfl⟩ <;>
    simp [Jumps, Deed.Jumps]

section
variable {program : Program} {operation : Operation} {w after : Workspace}
  {line : Option String} {deed : Deed}

theorem aimed_enact (h : (aimed program operation).enact w = .ok line after) :
    ∃ target index, operation.target = some target ∧ program.findLabel target = some index ∧
      after.memory.instructionPointer = Int64.ofInt (index - 1) := by
  unfold aimed at h
  split at h
  · cases h
  · rename_i target htarget
    split at h
    · cases h
    · rename_i index hindex
      cases h
      exact ⟨target, index, htarget, hindex, rfl⟩

/-- An operation that succeeds puts the pointer before its target, or at the end of the program,
or leaves it alone. -/
theorem Deed.pointer_ok (h : deed.handler program operation w = .ok line after) :
    (deed.Jumps w.memory.accumulator ∧ ∃ target index, operation.target = some target ∧
        program.findLabel target = some index ∧
        after.memory.instructionPointer = Int64.ofInt (index - 1)) ∨
      (deed = .halt ∧ after.memory.instructionPointer = Int64.ofNat program.size) ∨
      (¬ deed.Jumps w.memory.accumulator ∧ deed ≠ .halt ∧
        after.memory.instructionPointer = w.memory.instructionPointer) := by
  rw [deed.handler_apply] at h
  cases deed with
  | jump => exact .inl ⟨trivial, aimed_enact h⟩
  | jumpIf condition =>
    simp only [effect] at h
    split at h
    · rename_i hmet
      exact .inl ⟨hmet, aimed_enact h⟩
    · rename_i hunmet
      cases h
      exact .inr (.inr ⟨hunmet, by simp, rfl⟩)
  | halt => exact .inr (.inl ⟨rfl, Effect.pointer_enact h⟩)
  | _ =>
    refine .inr (.inr ⟨not_false, by simp, ?_⟩)
    rw [Effect.pointer_enact h]
    simp only [effect, computed] <;> (repeat' split) <;> rfl

end

theorem entries_flow {entry : Entry} (h : entry ∈ entries) :
    Flows entry.handler entry.descriptor.mnemonic := by
  obtain ⟨deed, hdeed, hhandler⟩ := exists_deed h
  obtain ⟨hjumps, hhalts⟩ := jumps_of_mem_deeds hdeed
  rw [hhandler]
  intro program operation w line after index hopcode hsize hindex hok
  rw [← hopcode] at hjumps hhalts
  rcases Deed.pointer_ok hok with
    ⟨hmet, target, place, haim, hfind, hpointer⟩ | ⟨hhalt, hpointer⟩ | ⟨hunmet, hgoes, hpointer⟩
  · have hfirst := Program.findLabel_eq_some_iff.mp hfind
    have hlt := hfirst.lt_size
    refine ⟨place, .jump ((hjumps _).mpr hmet) haim hfirst, ?_⟩
    rw [hpointer, Int64.toInt_ofInt_of_le (by omega) (by omega)]
  · refine ⟨program.size + 1, .halt (hhalts.mpr hhalt), ?_⟩
    have hend : (Int64.ofNat program.size).toInt = program.size :=
      Int64.toInt_ofNat_of_lt (by omega)
    rw [hpointer, hend]
    omega
  · refine ⟨index + 1, .next (mt (hjumps _).mp hunmet) (mt hhalts.mp hgoes), ?_⟩
    rw [hpointer, hindex]
    omega

end Ram

/-- A request that does not put the pointer anywhere by itself. -/
def Request.leavesPointer : Request → Bool
  | .load _ | .reset | .edit _ => false
  | .write (.accumulator _) | .write (.register _ _) => true
  | .write (.instructionPointer _) | .write (.named _ _) | .write .clear => false
  | .setInputs _ | .step | .run _ _ _ | .runPaced _ _ _ | .requestStop => true

namespace Session

/-- The operations that succeed while a session obeys a request, in order. -/
def succeeded (s : Session) : Request → List Operation
  | .step =>
    match s.step.1 with
    | .ok _ => s.next?.toList
    | .error _ => []
  | .run inputs signals limit =>
    executed (rounds false signals limit 0 (s.start inputs)) (s.start inputs)
  | .runPaced inputs signals limit =>
    executed (rounds s.pauses signals limit 0 (s.start inputs)) (s.start inputs)
  | .load _ | .setInputs _ | .requestStop | .reset | .write _ | .edit _ => []

def succeededAll (s : Session) : List Request → List Operation
  | [] => []
  | request :: further => s.succeeded request ++ (s.obey request).succeededAll further

/-- The pointer lies within a program or at one of the two places behind it, and at the second of
these because the last operation that succeeded was a halt. -/
structure OnCourse (program : Program) (operations : List Operation) (s : Session) : Prop where
  loaded : s.RamLoaded
  same : s.program = program
  size : program.size < 0x7FFFFFFFFFFFFFFF
  within : 0 ≤ s.memory.instructionPointer.toInt ∧
    s.memory.instructionPointer.toInt ≤ program.size + 1
  halted : s.memory.instructionPointer.toInt = program.size + 1 →
    ∃ operation, operations.getLast? = some operation ∧ operation.opcode = "HALT"

section
variable {s t : Session} {program : Program} {operation : Operation}
  {operations : List Operation} {line : Option String}

theorem hasNext_iff : s.hasNext = true ↔ 0 ≤ s.memory.instructionPointer.toInt ∧
    s.memory.instructionPointer.toInt < s.program.size := by
  have hsign : s.memory.instructionPointer < 0 ↔ s.memory.instructionPointer.toInt < 0 :=
    Int64.lt_iff_toInt_lt
  have hsize : s.program.operations.size = s.program.size := rfl
  rw [hasNext, next?, Program.at?]
  by_cases hneg : s.memory.instructionPointer.toInt < 0
  · rw [if_pos (hsign.mpr hneg)]
    simp only [Option.isSome_none, Bool.false_eq_true, false_iff]
    omega
  · rw [if_neg fun h => hneg (hsign.mp h), isSome_getElem?]
    omega

theorem hasNext_of_next? (h : s.next? = some operation) : s.hasNext = true := by
  rw [hasNext, h]
  rfl

/-- What an operation that succeeds does to the pointer, before the step moves it on. -/
theorem RamLoaded.dispatch_leads (h : s.RamLoaded) (hsize : s.program.size < 0x7FFFFFFFFFFFFFFF)
    (hn : s.next? = some operation) {w : Workspace}
    (hd : s.table.dispatch s.program operation s.workspace = .ok line w) :
    ∃ place, Ram.Leads s.program operation s.memory.accumulator
        s.memory.instructionPointer.toInt.toNat place ∧
      place ≤ s.program.size + 1 ∧ w.memory.instructionPointer.toInt = (place : Int) - 1 := by
  obtain ⟨hpos, hin⟩ := hasNext_iff.mp (hasNext_of_next? hn)
  obtain ⟨entry, hmem, hopcode, hfind⟩ := h.entry hn
  rw [OpcodeTable.dispatch_apply s.table s.program operation hfind] at hd
  split at hd
  · rename_i line' after hok
    cases hd
    obtain ⟨place, hleads, hpointer⟩ := Ram.entries_flow hmem s.program operation
      s.workspace line w _ hopcode.symm hsize (Int.toNat_of_nonneg hpos).symm hok
    exact ⟨place, hleads, hleads.le (by omega), hpointer⟩
  · cases hd

/-- A step that succeeds takes the pointer where its operation leads. -/
theorem RamLoaded.step_leads (h : s.RamLoaded) (hsize : s.program.size < 0x7FFFFFFFFFFFFFFF)
    (hstep : s.step = (.ok line, t)) :
    ∃ operation place, s.next? = some operation ∧
      Ram.Leads s.program operation s.memory.accumulator
        s.memory.instructionPointer.toInt.toNat place ∧
      t.memory.instructionPointer.toInt = place := by
  obtain ⟨operation, w, hn, _, hd, rfl⟩ := step_ok hstep
  obtain ⟨place, hleads, hle, hpointer⟩ := h.dispatch_leads hsize hn hd
  refine ⟨operation, place, hn, hleads, ?_⟩
  change (advancePointer w.memory.instructionPointer).toInt = place
  rw [toInt_advancePointer (by omega), hpointer]
  omega

/-- A step fails for want of an operation exactly where there is none. -/
theorem RamLoaded.hasNext_eq_false_iff (h : s.RamLoaded) :
    s.hasNext = false ↔
      ∃ fault t, s.step = (.error fault, t) ∧ fault.kind = .instructionPointerOutOfRange := by
  constructor
  · intro hn
    have hnone : s.next? = none := by
      rwa [hasNext, Option.isSome_eq_false_iff, Option.isNone_iff_eq_none] at hn
    exact ⟨s.outOfRange, s, by simp only [step, hnone], rfl⟩
  · rintro ⟨fault, t, hstep, hkind⟩
    rw [Bool.eq_false_iff]
    intro hn
    obtain ⟨operation, problem, _, hshows, hwrong⟩ := Ram.step_hazard h.ram h.shaped hn hstep
    rw [hshows.kind] at hkind
    rcases hwrong with ⟨limit, rfl⟩ | ⟨command, _, hhazard⟩
    · cases hkind
    · cases hhazard <;> cases hkind

namespace OnCourse

theorem phase (h : OnCourse program operations s) (state : Lifecycle) (flag : Bool) :
    OnCourse program operations (s.phase state flag) :=
  ⟨⟨h.loaded.ram, h.loaded.shaped⟩, h.same, h.size, h.within, h.halted⟩

theorem setTape (h : OnCourse program operations s) (tape : Tape) :
    OnCourse program operations (s.setTape tape) :=
  ⟨⟨h.loaded.ram, h.loaded.shaped⟩, h.same, h.size, h.within, h.halted⟩

theorem setMemory (h : OnCourse program operations s) {memory : Memory}
    (hpointer : memory.instructionPointer = s.memory.instructionPointer) :
    OnCourse program operations (s.setMemory memory) := by
  obtain ⟨hwithin, hhalted⟩ := And.intro h.within h.halted
  rw [← hpointer] at hwithin hhalted
  exact ⟨⟨h.loaded.ram, h.loaded.shaped⟩, h.same, h.size, hwithin, hhalted⟩

theorem start (h : OnCourse program operations s) (inputs : List String) :
    OnCourse program operations (s.start inputs) :=
  (h.setTape (.ofList inputs)).phase .running false

theorem step_ok (h : OnCourse program operations s) (hstep : s.step = (.ok line, t)) :
    OnCourse program (operations ++ s.next?.toList) t := by
  obtain ⟨hloaded, rfl, hsize, _, _⟩ := h
  have hkept := step_kept hstep
  obtain ⟨hpos, hin⟩ := hasNext_iff.mp (hasNext_of_step_ok hstep)
  obtain ⟨operation, place, hn, hleads, hpointer⟩ := hloaded.step_leads hsize hstep
  have hplace := hleads.le (by omega)
  refine ⟨hloaded.kept hkept, hkept.program, hsize, by omega, ?_⟩
  intro hend
  refine ⟨operation, ?_, hleads.halts (by omega) (by omega)⟩
  rw [hn, Option.toList_some, List.getLast?_concat]

theorem step_error (h : OnCourse program operations s) {fault : Fault}
    (hstep : s.step = (.error fault, t)) : OnCourse program operations t := by
  rw [step_atomic h.loaded.handledByRam hstep]
  exact h

theorem steps (h : OnCourse program operations s) {k : Nat} {lines : List String}
    (hs : Steps s k lines t) : OnCourse program (operations ++ executed k s) t := by
  induction hs generalizing operations with
  | refl s =>
    rw [executed, List.append_nil]
    exact h
  | @cons s u t line k lines head tail ih =>
    have htail := ih (h.step_ok head)
    rw [executed, head, ← List.append_assoc]
    exact htail

/-- A run adds to the operations that have succeeded those of its rounds. -/
theorem proceed (h : OnCourse program operations s) (hu : Underway s) {pauses : Bool}
    {signals : Nat → Signal} {fuel taken : Nat} {emitted : List String} {outcome : Outcome}
    (hrun : Session.proceed pauses signals fuel taken emitted s = (outcome, t)) :
    OnCourse program (operations ++ executed (rounds pauses signals fuel taken s) s) t := by
  obtain ⟨lines, last, hs, hstand⟩ := proceed_standing_rounds hu hrun
  have hlast := h.steps hs
  cases hstand with
  | ended atEnd => exact hlast.phase .halted false
  | stopped => exact hlast.phase .interrupted false
  | abandoned => exact hlast.phase .interrupted false
  | failed next step flag => exact (hlast.step_error step).phase .halted flag
  | unfinished next => exact hlast

theorem obey (h : OnCourse program operations s) {request : Request}
    (hrequest : request.leavesPointer = true) :
    OnCourse program (operations ++ s.succeeded request) (s.obey request) := by
  cases request with
  | load lines => cases hrequest
  | reset => cases hrequest
  | edit change => cases hrequest
  | setInputs inputs =>
    rw [succeeded, List.append_nil]
    exact h.setTape (.ofList inputs)
  | step =>
    obtain ⟨r, t, hstep⟩ : ∃ r t, s.step = (r, t) := ⟨_, _, rfl⟩
    have hafter : s.obey .step = t := congrArg Prod.snd hstep
    rw [hafter, succeeded, hstep]
    cases r with
    | ok line => exact h.step_ok hstep
    | error fault =>
      rw [List.append_nil]
      exact h.step_error hstep
  | run inputs signals limit => exact (h.start inputs).proceed (underway_start s inputs) rfl
  | runPaced inputs signals limit => exact (h.start inputs).proceed (underway_start s inputs) rfl
  | requestStop =>
    rw [succeeded, List.append_nil]
    change OnCourse program operations s.requestStop
    unfold requestStop
    split
    · exact h.phase s.state true
    · exact h
  | write change =>
    rw [succeeded, List.append_nil]
    cases change with
    | accumulator value => exact h.setMemory rfl
    | register address value => exact h.setMemory rfl
    | instructionPointer value => cases hrequest
    | named name value => cases hrequest
    | clear => cases hrequest

theorem obeyAll (h : OnCourse program operations s) {history : List Request}
    (hhistory : ∀ request ∈ history, request.leavesPointer = true) :
    OnCourse program (operations ++ s.succeededAll history) (s.obeyAll history) := by
  induction history generalizing s operations with
  | nil =>
    rw [succeededAll, List.append_nil]
    exact h
  | cons request history ih =>
    rw [List.forall_mem_cons] at hhistory
    have hrest := ih (h.obey hhistory.1) hhistory.2
    rw [succeededAll, ← List.append_assoc]
    exact hrest

end OnCourse

theorem onCourse_load (hram : s.table = Ram.table) {source : List String}
    (hsize : (s.load source).1.program.size < 0x7FFFFFFFFFFFFFFF) :
    OnCourse (s.load source).1.program [] (s.load source).1 := by
  have hzero : (s.load source).1.memory.instructionPointer.toInt = 0 := rfl
  have hshaped : (s.load source).1.program.ShapedBy Ram.table :=
    hram ▸ Source.parseProgram_shaped s.table s.settings.commentMarker source
  exact ⟨⟨hram, hshaped⟩, rfl, hsize, by omega, by omega⟩

end

/-- How the pointer of a session stands with a program of which operations have succeeded: within
it or at one of the two places behind it, at the second of them only behind a halt. At these two
there is no operation, and nowhere else does a step fail for want of one. A step that succeeds
takes the pointer where its operation leads, and never comes to the last pointer there is. -/
structure Steered (program : Program) (operations : List Operation) (s : Session) : Prop where
  same : s.program = program
  within : 0 ≤ s.memory.instructionPointer.toInt ∧
    s.memory.instructionPointer.toInt ≤ program.size + 1
  halted : s.memory.instructionPointer.toInt = program.size + 1 →
    ∃ operation, operations.getLast? = some operation ∧ operation.opcode = "HALT"
  behind : s.hasNext = false ↔ s.memory.instructionPointer.toInt = program.size ∨
    s.memory.instructionPointer.toInt = program.size + 1
  wanting : s.hasNext = false ↔
    ∃ fault t, s.step = (.error fault, t) ∧ fault.kind = .instructionPointerOutOfRange
  leads : ∀ line t, s.step = (.ok line, t) → ∃ operation place,
    s.next? = some operation ∧
    Ram.Leads program operation s.memory.accumulator
      s.memory.instructionPointer.toInt.toNat place ∧
    t.memory.instructionPointer.toInt = place
  unsaturated : ∀ operation line w, s.next? = some operation →
    s.table.dispatch program operation s.workspace = .ok line w →
    w.memory.instructionPointer ≠ Int64.maxValue

theorem OnCourse.steered {s : Session} {program : Program} {operations : List Operation}
    (h : OnCourse program operations s) : Steered program operations s := by
  obtain ⟨hloaded, rfl, hsize, hwithin, hhalted⟩ := h
  refine ⟨rfl, hwithin, hhalted, ?_, hloaded.hasNext_eq_false_iff, ?_, ?_⟩
  · rw [Bool.eq_false_iff, ne_eq, hasNext_iff]
    omega
  · intro line t hstep
    exact hloaded.step_leads hsize hstep
  · intro operation line w hn hd hlast
    obtain ⟨place, _, hle, hpointer⟩ := hloaded.dispatch_leads hsize hn hd
    rw [hlast, Int64.toInt_maxValue] at hpointer
    omega

/-- The pointer follows control flow. Whatever is asked of a session once a program is loaded,
short of putting the pointer elsewhere, steers it through that program, and so does every step of
a run that follows. -/
theorem pointer_follows_control_flow (s : Session) (hram : s.table = Ram.table)
    (source : List String) (hsize : (s.load source).1.program.size < 0x7FFFFFFFFFFFFFFF)
    (history : List Request)
    (hhistory : ∀ request ∈ history, request.leavesPointer = true) :
    Steered (s.load source).1.program ((s.load source).1.succeededAll history)
      ((s.load source).1.obeyAll history) ∧
    ∀ inputs k lines t, Steps (((s.load source).1.obeyAll history).start inputs) k lines t →
      Steered (s.load source).1.program
        ((s.load source).1.succeededAll history ++
          executed k (((s.load source).1.obeyAll history).start inputs)) t := by
  have hcourse := (onCourse_load hram hsize).obeyAll hhistory
  rw [List.nil_append] at hcourse
  refine ⟨hcourse.steered, ?_⟩
  intro inputs k lines t hs
  exact ((hcourse.start inputs).steps hs).steered

/-- Counts down from the number in the first register, or halts at once. -/
def countdown : List String :=
  ["load 1", "again: jzero out", "sub =1", "jump again", "out: halt", "write =0"]

def counting : List Request :=
  [.step, .write (.accumulator 1), .runPaced [] (signalAt 3 .stop) 9, .run [] undisturbed 9, .step]

theorem pointer_follows_control_flow_countdown :
    ((Ram.unloaded.load countdown).1.obeyAll counting).memory.instructionPointer = 7 ∧
    ∃ operation, ((Ram.unloaded.load countdown).1.succeededAll counting).getLast? =
      some operation ∧ operation.opcode = "HALT" := by
  have hsize : (Ram.unloaded.load countdown).1.program.size = 6 := by decide +kernel
  have hend : ((Ram.unloaded.load countdown).1.obeyAll counting).memory.instructionPointer = 7 := by
    decide +kernel
  have hall := pointer_follows_control_flow Ram.unloaded rfl countdown (by rw [hsize]; decide)
    counting (by simp [counting, Request.leavesPointer])
  refine ⟨hend, hall.1.halted ?_⟩
  rw [hsize, hend]
  rfl

end Session

end RegisterMachine

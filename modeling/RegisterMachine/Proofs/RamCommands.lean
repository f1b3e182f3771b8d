import RegisterMachine.Proofs.LoadedPrograms
import RegisterMachine.Proofs.Textbook

namespace RegisterMachine.Ram
open Textbook (Cell Command)

/-- The register that an instruction names. -/
def cell? (instruction : Instruction) : Option Cell :=
  match instruction.value with
  | none => none
  | some value =>
    if value < 0 then none
    else
      match instruction.mode with
      | .direct => none
      | .registry => some (.numbered value.toInt.toNat)
      | .pointer => some (.through value.toInt.toNat)

def operand? (instruction : Instruction) : Option Textbook.Operand :=
  match instruction.mode with
  | .direct => instruction.value.map fun value => .constant value.toInt
  | .registry | .pointer => (cell? instruction).map .content

/-- What an instruction means on the textbook machine. -/
def command? (instruction : Instruction) : Option Command :=
  match instruction.opcode with
  | "LOAD" => (operand? instruction).map .load
  | "STORE" => (cell? instruction).map .store
  | "ADD" => (operand? instruction).map (.compute .add)
  | "SUB" => (operand? instruction).map (.compute .subtract)
  | "MUL" | "MULT" => (operand? instruction).map (.compute .multiply)
  | "DIV" => (operand? instruction).map (.compute .divide)
  | "READ" => (cell? instruction).map .read
  | "WRITE" => (operand? instruction).map .write
  | "JUMP" => instruction.target.map .jump
  | "JZERO" => instruction.target.map .jumpIfZero
  | "JGTZ" => instruction.target.map .jumpIfPositive
  | "HALT" => some .halt
  | _ => none

/-- A handler serves an instruction that has the operand which the handler looks for. -/
inductive Serves (instruction : Instruction) : Handler → Command → Prop
  | load {operand} (h : operand? instruction = some operand) :
      Serves instruction load (.load operand)
  | store {cell} (h : cell? instruction = some cell) : Serves instruction store (.store cell)
  | add {operand} (h : operand? instruction = some operand) :
      Serves instruction add (.compute .add operand)
  | sub {operand} (h : operand? instruction = some operand) :
      Serves instruction sub (.compute .subtract operand)
  | mul {operand} (h : operand? instruction = some operand) :
      Serves instruction mul (.compute .multiply operand)
  | div {operand} (h : operand? instruction = some operand) :
      Serves instruction div (.compute .divide operand)
  | read {cell} (h : cell? instruction = some cell) : Serves instruction read (.read cell)
  | write {operand} (h : operand? instruction = some operand) :
      Serves instruction write (.write operand)
  | jump {label} (h : instruction.target = some label) : Serves instruction jump (.jump label)
  | jumpIfZero {label} (h : instruction.target = some label) :
      Serves instruction jumpIfZero (.jumpIfZero label)
  | jumpIfPositive {label} (h : instruction.target = some label) :
      Serves instruction jumpIfPositive (.jumpIfPositive label)
  | halt : Serves instruction halt .halt

section
variable {descriptor : Descriptor} {instruction : Instruction}

theorem cell?_of_shapes (h : descriptor.Shapes instruction) (hl : descriptor.takesLabel = false)
    (hn : descriptor.takesNumber = true) (hm : instruction.mode ≠ .direct) :
    ∃ cell, cell? instruction = some cell := by
  obtain ⟨_, _, value, hv, hsign⟩ := h.number hl hn
  have hpos : ¬ value < 0 := Int64.not_lt.mpr (hsign hm)
  cases hmode : instruction.mode with
  | direct => exact absurd hmode hm
  | registry => exact ⟨.numbered value.toInt.toNat, by simp [cell?, hv, hpos, hmode]⟩
  | pointer => exact ⟨.through value.toInt.toNat, by simp [cell?, hv, hpos, hmode]⟩

theorem operand?_of_shapes (h : descriptor.Shapes instruction)
    (hl : descriptor.takesLabel = false) (hn : descriptor.takesNumber = true) :
    ∃ operand, operand? instruction = some operand := by
  by_cases hm : instruction.mode = .direct
  · obtain ⟨_, _, value, hv, _⟩ := h.number hl hn
    exact ⟨.constant value.toInt, by simp [operand?, hm, hv]⟩
  · obtain ⟨cell, hc⟩ := cell?_of_shapes h hl hn hm
    refine ⟨.content cell, ?_⟩
    cases hmode : instruction.mode with
    | direct => exact absurd hmode hm
    | registry => simp [operand?, hmode, hc]
    | pointer => simp [operand?, hmode, hc]

theorem designated_of_shapes (h : descriptor.Shapes instruction)
    (hl : descriptor.takesLabel = false) (hn : descriptor.takesNumber = true)
    (hd : descriptor.allowsDirect = false) : ∃ cell, cell? instruction = some cell := by
  apply cell?_of_shapes h hl hn
  intro hm
  have ha := (h.number hl hn).2.1
  rw [hm, Descriptor.allows, hd] at ha
  cases ha

theorem target_of_shapes (h : descriptor.Shapes instruction) (hl : descriptor.takesLabel = true) :
    ∃ label, instruction.target = some label :=
  Option.isSome_iff_exists.mp (h.jump hl).2

end

/-- Every instruction that fits an entry of the machine's table means something, and the entry's
handler serves it. -/
theorem serves_of_shapes {entry : Entry} (he : entry ∈ entries) {instruction : Instruction}
    (h : entry.descriptor.Shapes instruction) :
    ∃ command, command? instruction = some command ∧ Serves instruction entry.handler command := by
  simp only [entries, List.mem_cons, List.not_mem_nil, or_false] at he
  rcases he with rfl | rfl | rfl | rfl | rfl | rfl | rfl | rfl | rfl | rfl | rfl | rfl | rfl
  · obtain ⟨operand, hs⟩ := operand?_of_shapes h rfl rfl
    have hop : instruction.opcode = "LOAD" := h.opcode
    exact ⟨_, by simp [command?, hop, hs], .load hs⟩
  · obtain ⟨cell, hs⟩ := designated_of_shapes h rfl rfl rfl
    have hop : instruction.opcode = "STORE" := h.opcode
    exact ⟨_, by simp [command?, hop, hs], .store hs⟩
  · obtain ⟨operand, hs⟩ := operand?_of_shapes h rfl rfl
    have hop : instruction.opcode = "ADD" := h.opcode
    exact ⟨_, by simp [command?, hop, hs], .add hs⟩
  · obtain ⟨operand, hs⟩ := operand?_of_shapes h rfl rfl
    have hop : instruction.opcode = "SUB" := h.opcode
    exact ⟨_, by simp [command?, hop, hs], .sub hs⟩
  · obtain ⟨operand, hs⟩ := operand?_of_shapes h rfl rfl
    have hop : instruction.opcode = "MUL" := h.opcode
    exact ⟨_, by simp [command?, hop, hs], .mul hs⟩
  · obtain ⟨operand, hs⟩ := operand?_of_shapes h rfl rfl
    have hop : instruction.opcode = "MULT" := h.opcode
    exact ⟨_, by simp [command?, hop, hs], .mul hs⟩
  · obtain ⟨operand, hs⟩ := operand?_of_shapes h rfl rfl
    have hop : instruction.opcode = "DIV" := h.opcode
    exact ⟨_, by simp [command?, hop, hs], .div hs⟩
  · obtain ⟨cell, hs⟩ := designated_of_shapes h rfl rfl rfl
    have hop : instruction.opcode = "READ" := h.opcode
    exact ⟨_, by simp [command?, hop, hs], .read hs⟩
  · obtain ⟨operand, hs⟩ := operand?_of_shapes h rfl rfl
    have hop : instruction.opcode = "WRITE" := h.opcode
    exact ⟨_, by simp [command?, hop, hs], .write hs⟩
  · obtain ⟨label, hs⟩ := target_of_shapes h rfl
    have hop : instruction.opcode = "JUMP" := h.opcode
    exact ⟨_, by simp [command?, hop, hs], .jump hs⟩
  · obtain ⟨label, hs⟩ := target_of_shapes h rfl
    have hop : instruction.opcode = "JZERO" := h.opcode
    exact ⟨_, by simp [command?, hop, hs], .jumpIfZero hs⟩
  · obtain ⟨label, hs⟩ := target_of_shapes h rfl
    have hop : instruction.opcode = "JGTZ" := h.opcode
    exact ⟨_, by simp [command?, hop, hs], .jumpIfPositive hs⟩
  · have hop : instruction.opcode = "HALT" := h.opcode
    exact ⟨_, by simp [command?, hop], .halt⟩

theorem serves_of_shaped {program : Program} (h : program.ShapedBy table)
    {operation : Operation} (hm : operation ∈ program.operations) :
    ∃ entry command, table.find? operation.opcode = some entry ∧
      command? operation.toInstruction = some command ∧
      Serves operation.toInstruction entry.handler command := by
  obtain ⟨entry, hf, hs⟩ := h operation hm
  obtain ⟨command, hc, hserves⟩ := serves_of_shapes (OpcodeTable.mem_of_find? hf) hs
  exact ⟨entry, command, hf, hc, hserves⟩

section
variable {instruction : Instruction} {cell : Cell}

/-- The register of an instruction that names one: the register itself, or the one to which its
content points. -/
theorem destination_of_cell (memory : Memory) (h : cell? instruction = some cell) :
    ∃ number, instruction.value = some number ∧ 0 ≤ number ∧
      ((instruction.mode = .registry ∧ cell = .numbered number.toInt.toNat ∧
          destination memory instruction = .ok number.toUInt64) ∨
        (instruction.mode = .pointer ∧ cell = .through number.toInt.toNat ∧
          destination memory instruction = registerAt (memory.get number.toUInt64))) := by
  unfold cell? at h
  split at h
  · cases h
  · rename_i number hv
    split at h
    · cases h
    · rename_i hsign
      refine ⟨number, hv, Int64.not_lt.mp hsign, ?_⟩
      split at h
      · cases h
      · rename_i hm
        exact .inl ⟨hm, (Option.some.inj h).symm, by simp [destination, hv, hm, registerAt, hsign]⟩
      · rename_i hm
        refine .inr ⟨hm, (Option.some.inj h).symm, ?_⟩
        simp only [destination, hv, hm, registerAt, hsign, if_false]
        rfl

theorem operand_of_operand? (memory : Memory) {operand : Textbook.Operand}
    (h : operand? instruction = some operand) :
    (∃ value, operand = .constant value.toInt ∧ Ram.operand memory instruction = .ok value) ∨
      (∃ cell, cell? instruction = some cell ∧ operand = .content cell ∧
        Ram.operand memory instruction = (destination memory instruction).map memory.get) := by
  unfold operand? at h
  split at h
  · rename_i hm
    obtain ⟨value, hv, rfl⟩ := Option.map_eq_some_iff.mp h
    exact .inl ⟨value, rfl, by simp [Ram.operand, hm, hv]⟩
  · rename_i hm
    obtain ⟨cell, hc, rfl⟩ := Option.map_eq_some_iff.mp h
    exact .inr ⟨cell, hc, rfl, by simp [Ram.operand, hm]⟩
  · rename_i hm
    obtain ⟨cell, hc, rfl⟩ := Option.map_eq_some_iff.mp h
    exact .inr ⟨cell, hc, rfl, by simp [Ram.operand, hm]⟩

end

end RegisterMachine.Ram

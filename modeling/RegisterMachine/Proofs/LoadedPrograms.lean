import RegisterMachine.Proofs.Steps
import RegisterMachine.Proofs.Tables
import RegisterMachine.Session.Basic

namespace RegisterMachine

/-- The operand of an instruction is the one that a descriptor asks for. -/
structure Descriptor.Shapes (descriptor : Descriptor) (instruction : Instruction) : Prop where
  opcode : instruction.opcode = descriptor.mnemonic
  jump : descriptor.takesLabel = true → instruction.value = none ∧ instruction.target.isSome
  number : descriptor.takesLabel = false → descriptor.takesNumber = true →
    instruction.target = none ∧ descriptor.allows instruction.mode = true ∧
      ∃ value, instruction.value = some value ∧ (instruction.mode ≠ .direct → 0 ≤ value)
  bare : descriptor.takesLabel = false → descriptor.takesNumber = false →
    instruction.value = none ∧ instruction.target = none

/-- A label does not count for the shape of an instruction. -/
theorem Descriptor.Shapes.labelled {descriptor : Descriptor} {instruction : Instruction}
    (h : descriptor.Shapes instruction) (label : Option String) :
    descriptor.Shapes { instruction with label := label } :=
  ⟨h.opcode, h.jump, h.number, h.bare⟩

/-- The table has an entry for every operation of a program, and the operation has the operand
that this entry describes. -/
def Program.ShapedBy (table : OpcodeTable) (program : Program) : Prop :=
  ∀ operation ∈ program.operations, ∃ entry, table.find? operation.opcode = some entry ∧
    entry.descriptor.Shapes operation.toInstruction

/-- The declared mnemonic of an entry leads to that entry, in whatever spelling it was found. -/
theorem OpcodeTable.find?_mnemonic {table : OpcodeTable} {mnemonic : String} {entry : Entry}
    (h : table.find? mnemonic = some entry) :
    table.find? entry.descriptor.mnemonic = some entry :=
  find?_eq_some_iff.mpr ⟨mem_of_find? h, rfl⟩

namespace Source

theorem readNumber_ok {descriptor : Descriptor} {argument : String} {mode : Mode} {value : Int64}
    (h : readNumber descriptor argument = .ok (mode, value)) :
    descriptor.allows mode = true ∧ (mode ≠ .direct → 0 ≤ value) := by
  simp only [readNumber] at h
  split at h
  · rename_i hallows
    split at h
    · cases h
    · rename_i v _
      split at h
      · cases h
      · rename_i hsign
        cases h
        refine ⟨hallows, fun hmode => ?_⟩
        exact Int64.not_lt.mp fun hneg => hsign ⟨hmode, hneg⟩
  · cases h

theorem readArguments_shapes {descriptor : Descriptor} {arguments : List String}
    {instruction : Instruction} (h : readArguments descriptor arguments = .ok instruction) :
    descriptor.Shapes instruction := by
  unfold readArguments at h
  split at h
  · rename_i hlabel
    split at h
    · cases h
    · cases h
      exact ⟨rfl, fun _ => ⟨rfl, rfl⟩, by simp [hlabel], by simp [hlabel]⟩
    · cases h
  · rename_i hlabel
    split at h
    · rename_i hnumber
      split at h
      · cases h
      · split at h
        · cases h
        · rename_i mode value hread
          cases h
          obtain ⟨hallows, hsign⟩ := readNumber_ok hread
          exact ⟨rfl, by simp [hlabel], fun _ _ => ⟨rfl, hallows, value, rfl, hsign⟩,
            by simp [hnumber]⟩
      · cases h
    · rename_i hnumber
      split at h
      · cases h
        exact ⟨rfl, by simp [hlabel], by simp [hnumber], fun _ _ => ⟨rfl, rfl⟩⟩
      · cases h

theorem readOpcode_shapes {table : OpcodeTable} {mnemonic : String} {arguments : List String}
    {instruction : Instruction} (h : readOpcode table mnemonic arguments = .ok instruction) :
    ∃ entry, table.find? instruction.opcode = some entry ∧
      entry.descriptor.Shapes instruction := by
  simp only [readOpcode] at h
  split at h
  · cases h
  · rename_i descriptor hresolve
    obtain ⟨entry, hfind, rfl⟩ := Option.map_eq_some_iff.mp hresolve
    have hshapes := readArguments_shapes h
    exact ⟨entry, hshapes.opcode ▸ OpcodeTable.find?_mnemonic hfind, hshapes⟩

theorem readWords_shapes {table : OpcodeTable} {words : List String} {instruction : Instruction}
    (h : readWords table words = .ok instruction) :
    ∃ entry, table.find? instruction.opcode = some entry ∧
      entry.descriptor.Shapes instruction := by
  unfold readWords at h
  split at h
  · cases h
  · split at h
    · exact readOpcode_shapes h
    · split at h
      · cases h
      · rename_i mnemonic arguments
        split at h
        · cases h
        · cases hread : readOpcode table mnemonic arguments with
          | error problem => simp [hread, Except.map] at h
          | ok plain =>
            simp only [hread, Except.map, Except.ok.injEq] at h
            subst h
            obtain ⟨entry, hfind, hshapes⟩ := readOpcode_shapes hread
            exact ⟨entry, hfind, hshapes.labelled _⟩

theorem parseOperation_shapes {table : OpcodeTable} {line : String} {number : Nat}
    {operation : Operation} (h : parseOperation table line number = .ok operation) :
    ∃ entry, table.find? operation.opcode = some entry ∧
      entry.descriptor.Shapes operation.toInstruction := by
  unfold parseOperation at h
  split at h
  · rename_i instruction hread
    cases h
    exact readWords_shapes hread
  · cases h

/-- An operation of a loaded program was read from one of its lines. -/
theorem mem_parseProgram {table : OpcodeTable} {marker : Char} {lines : List String}
    {operation : Operation} (h : operation ∈ (parseProgram table marker lines).1.operations) :
    ∃ line ∈ lines, ∃ number,
      parseOperation table (stripComment marker line) number = .ok operation := by
  simp only [parseProgram, List.mem_toArray, operations, List.mem_filterMap] at h
  obtain ⟨read, hread, hok⟩ := h
  obtain ⟨⟨line, number⟩, hmem, hline⟩ := List.mem_filterMap.mp hread
  cases read with
  | error diagnostic => cases hok
  | ok found =>
    cases hok
    simp only [readLine] at hline
    split at hline
    · cases hline
    · cases hparse : parseOperation table (stripComment marker line) number with
      | error fault => rw [hparse] at hline; cases hline
      | ok found =>
        rw [hparse] at hline
        cases hline
        exact ⟨line, List.fst_mem_of_mem_zipIdx hmem, number, hparse⟩

/-- What is loaded has been checked against the table, whatever lines were left out. -/
theorem parseProgram_shaped (table : OpcodeTable) (marker : Char) (lines : List String) :
    (parseProgram table marker lines).1.ShapedBy table := by
  intro operation hm
  obtain ⟨line, -, number, hparse⟩ := mem_parseProgram hm
  exact parseOperation_shapes hparse

end Source

theorem Program.mem_of_at? {program : Program} {pointer : Int64} {operation : Operation}
    (h : program.at? pointer = some operation) : operation ∈ program.operations := by
  unfold at? at h
  split at h
  · cases h
  · exact Array.mem_of_getElem? h

theorem Program.label_ne_of_findLabel {program : Program} {label : String}
    (h : program.findLabel label = none) {operation : Operation}
    (hm : operation ∈ program.operations) : operation.label ≠ some label := by
  have hall := Array.findIdx?_eq_none_iff.mp h operation hm
  simpa using hall

namespace Session

/-- A session of the random access machine with a program that was loaded. -/
structure RamLoaded (s : Session) : Prop where
  ram : s.table = Ram.table
  shaped : s.program.ShapedBy Ram.table

theorem ramLoaded_of_parseProgram {s : Session} {marker : Char} {lines : List String}
    (hram : s.table = Ram.table)
    (hloaded : s.program = (Source.parseProgram Ram.table marker lines).1) : s.RamLoaded :=
  ⟨hram, hloaded ▸ Source.parseProgram_shaped Ram.table marker lines⟩

theorem RamLoaded.kept {s t : Session} (h : s.RamLoaded) (hk : Kept s t) : t.RamLoaded :=
  ⟨hk.table.trans h.ram, hk.program ▸ h.shaped⟩

/-- The next operation of a loaded program is executed by the handler of its own opcode. -/
theorem RamLoaded.entry {s : Session} (h : s.RamLoaded) {operation : Operation}
    (hn : s.next? = some operation) :
    ∃ entry ∈ Ram.entries, entry.descriptor.mnemonic = operation.opcode ∧
      s.table.find? operation.opcode = some entry := by
  obtain ⟨entry, hfind, hshapes⟩ := h.shaped operation (Program.mem_of_at? hn)
  exact ⟨entry, OpcodeTable.mem_of_find? hfind, hshapes.opcode.symm, h.ram ▸ hfind⟩

end Session

end RegisterMachine

import RegisterMachine.Proofs.Grammar
import RegisterMachine.Proofs.Histories
import RegisterMachine.Proofs.LoadedPrograms

namespace RegisterMachine

/-- An operation was read under an entry: the mnemonic in its text leads to the entry, and the
arguments behind it were read as the entry's descriptor says. -/
structure Entry.Reads (table : OpcodeTable) (entry : Entry) (operation : Operation) : Prop where
  mem : entry ∈ table.entries
  parsed : Source.parseOperation table operation.raw operation.line = .ok operation
  named : ∃ mnemonic arguments,
    Source.Placed table (Text.words operation.raw) mnemonic arguments ∧
      entry.key table.policy = table.policy.key mnemonic ∧
      Source.readArguments entry.descriptor arguments =
        .ok { operation.toInstruction with label := none }

/-- Every operation of a program is what its own text and line number are read as. -/
def Program.ReadBy (table : OpcodeTable) (program : Program) : Prop :=
  ∀ operation ∈ program.operations,
    Source.parseOperation table operation.raw operation.line = .ok operation

theorem Machine.table_ram : Machine.ram.table = .ok Ram.table := by
  have hbuild : OpcodeTable.build Machine.ram.policy Machine.ram.entries = .ok Ram.table :=
    OpcodeTable.build_eq Ram.table
  rw [Machine.table, hbuild]
  rfl

/-- A new session of the random access machine. -/
def Session.ofRam (settings : Settings) : Session where
  machine := "RAM"
  settings := settings
  table := Ram.table
  workspace := { memory := { named := Ram.named } }

theorem Session.create_ram (settings : Settings) :
    Session.create Machine.ram settings = .ok (Session.ofRam settings) := by
  rw [create, Machine.table_ram]
  rfl

section
variable {table : OpcodeTable} {entry : Entry} {operation : Operation}

/-- The words of an operation lead to one entry, by a mnemonic with or without a label before
it. -/
theorem Source.Sentence.exists_entry {words : List String} {instruction : Instruction}
    (h : Source.Sentence table words instruction) :
    ∃ entry ∈ table.entries, ∃ mnemonic arguments, Source.Placed table words mnemonic arguments ∧
      entry.key table.policy = table.policy.key mnemonic ∧
      Source.readArguments entry.descriptor arguments = .ok { instruction with label := none } := by
  cases h with
  | plain known fits =>
    have hread := fits.readArguments_eq known.sound
    have hplain : { instruction with label := none } = instruction := by
      cases fits <;> rfl
    have hknown := known
    obtain ⟨entry, hmem, rfl, hkey⟩ := known
    exact ⟨entry, hmem, _, _, .first ⟨_, hknown⟩, hkey, hplain ▸ hread⟩
  | labelled unknown labels named known fits =>
    have hread := fits.readArguments_eq known.sound
    obtain ⟨entry, hmem, rfl, hkey⟩ := known
    refine ⟨entry, hmem, _, _, .second unknown, hkey, ?_⟩
    cases fits <;> exact hread

theorem Program.ReadBy.reads {program : Program} (h : program.ReadBy table)
    (hm : operation ∈ program.operations) : ∃ entry : Entry, entry.Reads table operation := by
  have hparse := h operation hm
  obtain ⟨instruction, hsentence, heq⟩ := Source.parseOperation_eq_ok_iff.mp hparse
  obtain ⟨entry, hmem, mnemonic, arguments, hplaced, hkey, hread⟩ := hsentence.exists_entry
  have hsame : operation.toInstruction = instruction := by rw [heq]
  exact ⟨entry, hmem, hparse, mnemonic, arguments, hplaced, hkey, hsame ▸ hread⟩

theorem Source.parseProgram_readBy (table : OpcodeTable) (marker : Char) (lines : List String) :
    (Source.parseProgram table marker lines).1.ReadBy table := by
  intro operation hm
  obtain ⟨line, -, number, hparse⟩ := Source.mem_parseProgram hm
  obtain ⟨instruction, _, rfl⟩ := Source.parseOperation_eq_ok_iff.mp hparse
  exact hparse

namespace Entry.Reads

theorem shapes (h : entry.Reads table operation) :
    entry.descriptor.Shapes operation.toInstruction := by
  obtain ⟨_, _, _, _, hread⟩ := h.named
  exact (Source.readArguments_shapes hread).labelled operation.label

/-- The opcode that was written into the operation leads back to the entry. -/
theorem find?_opcode (h : entry.Reads table operation) :
    table.find? operation.opcode = some entry := by
  rw [h.shapes.opcode]
  exact OpcodeTable.find?_eq_some_iff.mpr ⟨h.mem, rfl⟩

theorem only {other : Entry} (h : entry.Reads table operation) (hm : other ∈ table.entries)
    (hkey : other.key table.policy = table.policy.key operation.opcode) : other = entry := by
  have hfind := OpcodeTable.find?_eq_some_iff.mpr ⟨hm, hkey⟩
  exact Option.some.inj (hfind.symm.trans h.find?_opcode)

end Entry.Reads

end

namespace Session

/-- A program comes from the reader, and the table is the machine's. -/
theorem lasting_readBy (machine : Machine) :
    Lasting fun s => machine.table = .ok s.table ∧ s.program.ReadBy s.table where
  load := by
    -- No other call brings operations into the program.
    intro s lines h
    exact ⟨h.1, Source.parseProgram_readBy s.table s.settings.commentMarker lines⟩
  setTape := by
    intro s tape h
    exact h
  setMemory := by
    intro s memory h
    exact h
  step := by
    intro s r t hstep h
    have hkept := step_kept hstep
    rw [hkept.table, hkept.program]
    exact h
  phase := by
    intro s state flag h
    exact h
  reset := by
    intro s h
    exact ⟨h.1, by simp [reset, Program.empty, Program.ReadBy]⟩

theorem reachable_readBy {machine : Machine} {settings : Settings} {s : Session}
    (h : Reachable machine settings s) :
    machine.table = .ok s.table ∧ s.program.ReadBy s.table := by
  refine (lasting_readBy machine).reachable ?_ h
  intro s hnew
  obtain ⟨table, htable, rfl⟩ := create_ok hnew
  exact ⟨htable, by simp [Program.empty, Program.ReadBy]⟩

/-- Reading and dispatch agree, whatever was asked of a session before. An operation of its
program was read under one entry of the machine's table. That entry alone has the key of the
opcode; its handler is what dispatch executes; and the operand is the one that its descriptor
asks for. -/
theorem dispatch_agrees_with_reading {machine : Machine} {settings : Settings} {s : Session}
    (h : Reachable machine settings s) :
    machine.table = .ok s.table ∧
    ∀ operation ∈ s.program.operations, ∃ entry : Entry, entry.Reads s.table operation ∧
      (∀ other ∈ s.table.entries,
        other.key s.table.policy = s.table.policy.key operation.opcode → other = entry) ∧
      (∀ program w, s.table.dispatch program operation w =
        match entry.handler program operation w with
        | .ok line after => .ok line after
        | .error fault after => .error (fault.atOperation operation) after) ∧
      entry.descriptor.Shapes operation.toInstruction := by
  obtain ⟨htable, hread⟩ := reachable_readBy h
  refine ⟨htable, ?_⟩
  intro operation hm
  obtain ⟨entry, hreads⟩ := hread.reads hm
  refine ⟨entry, hreads, fun other => hreads.only, ?_, hreads.shapes⟩
  intro program w
  exact OpcodeTable.dispatch_apply s.table program operation hreads.find?_opcode w

/-- A session that has loaded a mnemonic in small letters, behind a label. -/
def doubling : Session :=
  (Session.load (.ofRam {}) ["# twice as much", "twice: mult =2"]).1

theorem reachable_doubling : Reachable Machine.ram {} doubling :=
  .obey (.load ["# twice as much", "twice: mult =2"])
    (.create (create_ram {}))

/-- The operation that it has loaded, from its second line. -/
def doubled : Operation where
  opcode := "MULT"
  label := some "twice"
  value := some 2
  mode := .direct
  raw := "twice: mult =2"
  line := 2

theorem dispatch_agrees_with_reading_doubling :
    Reachable Machine.ram {} doubling ∧ doubled ∈ doubling.program.operations ∧
      ∃ entry : Entry, entry.Reads doubling.table doubled ∧
        entry.descriptor.mnemonic = "MULT" ∧
        ∀ program w, doubling.table.dispatch program doubled w =
          match entry.handler program doubled w with
          | .ok line after => .ok line after
          | .error fault after => .error (fault.atOperation doubled) after := by
  have hmem : doubled ∈ doubling.program.operations := by decide +kernel
  obtain ⟨entry, hreads, _, hdispatch, hshapes⟩ :=
    (dispatch_agrees_with_reading reachable_doubling).2 doubled hmem
  exact ⟨reachable_doubling, hmem, entry, hreads, hshapes.opcode.symm, hdispatch⟩

end Session

end RegisterMachine

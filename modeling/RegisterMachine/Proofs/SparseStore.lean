import Mathlib.Data.List.Induction
import RegisterMachine.Proofs.Requests

namespace RegisterMachine

namespace NamedRegisters
variable {α β : Type}

/-- The same names for other things. -/
def map (f : α → β) (named : NamedRegisters α) : NamedRegisters β where
  accessors := named.accessors.map fun _ accessor => f accessor
  names := named.names
  inStep key := by rw [named.inStep, Std.TreeMap.mem_map]
  nodup := named.nodup

theorem lookup_map (f : α → β) (named : NamedRegisters α) (name : String) :
    (named.map f).lookup name = (named.lookup name).map f :=
  Std.TreeMap.getElem?_map

end NamedRegisters

namespace Memory

/-- The parts of a memory that can be written one by one. -/
inductive Part where
  | accumulator
  | instructionPointer
  | register (address : UInt64)
  deriving DecidableEq, Repr

def Part.accessor : Part → Accessor
  | .accumulator => .accumulator
  | .instructionPointer => .instructionPointer
  | .register address => .register address

def read (memory : Memory) (part : Part) : Int64 :=
  part.accessor.get memory.toContents

/-- The part of a memory that a write is for and the value that it puts there, if it has a part:
one by an unknown name has none. -/
def Write.target? (named : NamedRegisters Part) : Write → Option (Part × Int64)
  | .accumulator value => some (.accumulator, value)
  | .instructionPointer value => some (.instructionPointer, value)
  | .register address value => some (.register address, value)
  | .named name value => (named.lookup name).map fun part => (part, value)
  | .clear => none

/-- What can be done with a memory. -/
inductive Use where
  | write (change : Write)
  | get (address : UInt64)
  | holds (address : UInt64)
  | readNamed (name : String)

def Use.clears : Use → Bool
  | .write .clear => true
  | _ => false

def Use.target? (named : NamedRegisters Part) : Use → Option (Part × Int64)
  | .write change => change.target? named
  | .get _ | .holds _ | .readNamed _ => none

/-- The memory after it was used; looking at it changes nothing. -/
def after (memory : Memory) : Use → Memory
  | .write change => (memory.written change).1
  | .get _ | .holds _ | .readNamed _ => memory

/-- A new memory with names for some of its parts, after it was used. -/
def used (named : NamedRegisters Part) (history : List Use) : Memory :=
  history.foldl after { named := named.map Part.accessor }

/-- What was written to a part of a memory last, going back no further than to where the memory
was cleared. -/
def lastWritten (named : NamedRegisters Part) (history : List Use) (part : Part) : Option Int64 :=
  ((history.reverse.takeWhile fun use => !use.clears).filterMap (·.target? named)).lookup part

section
variable {named : NamedRegisters Part} {history : List Use} {use : Use} {memory : Memory}
  {part other : Part} {value : Int64}

/-- Every use clears a memory, writes to one of its parts, or leaves it alone. -/
theorem after_cases (hnamed : memory.named = named.map Part.accessor) (use : Use) :
    (use.clears = true ∧ use.target? named = none ∧ memory.after use = memory.clear) ∨
      (∃ part value, use.clears = false ∧ use.target? named = some (part, value) ∧
        memory.after use = memory.write value part.accessor) ∨
      (use.clears = false ∧ use.target? named = none ∧ memory.after use = memory) := by
  cases use with
  | get address => exact .inr (.inr ⟨rfl, rfl, rfl⟩)
  | holds address => exact .inr (.inr ⟨rfl, rfl, rfl⟩)
  | readNamed name => exact .inr (.inr ⟨rfl, rfl, rfl⟩)
  | write change =>
    cases change with
    | accumulator value => exact .inr (.inl ⟨.accumulator, value, rfl, rfl, rfl⟩)
    | instructionPointer value => exact .inr (.inl ⟨.instructionPointer, value, rfl, rfl, rfl⟩)
    | register address value => exact .inr (.inl ⟨.register address, value, rfl, rfl, rfl⟩)
    | clear => exact .inl ⟨rfl, rfl, rfl⟩
    | named name value =>
      have hlookup := NamedRegisters.lookup_map Part.accessor named name
      cases hname : named.lookup name with
      | none =>
        refine .inr (.inr ⟨rfl, ?_, ?_⟩)
        · simp [Use.target?, Write.target?, hname]
        · simp [after, written, writeNamed, hnamed, hlookup, hname]
      | some part =>
        refine .inr (.inl ⟨part, value, rfl, ?_, ?_⟩)
        · simp [Use.target?, Write.target?, hname]
        · simp [after, written, writeNamed, hnamed, hlookup, hname]

theorem after_of_target? (hnamed : memory.named = named.map Part.accessor)
    (ht : use.target? named = some (part, value)) :
    memory.after use = memory.write value part.accessor := by
  rcases after_cases hnamed use with ⟨-, hnone, -⟩ | ⟨other, v, -, hsome, hafter⟩ | ⟨-, hnone, -⟩
  · exact absurd (hnone.symm.trans ht) (by simp)
  · obtain ⟨rfl, rfl⟩ : other = part ∧ v = value := by simpa using hsome.symm.trans ht
    exact hafter
  · exact absurd (hnone.symm.trans ht) (by simp)

theorem used_concat (named : NamedRegisters Part) (history : List Use) (use : Use) :
    used named (history ++ [use]) = (used named history).after use := by
  simp only [used, List.foldl_append, List.foldl_cons, List.foldl_nil]

theorem lastWritten_clear (h : use.clears = true) :
    lastWritten named (history ++ [use]) part = none := by
  simp [lastWritten, h]

theorem lastWritten_write (hc : use.clears = false) (ht : use.target? named = some (other, value)) :
    lastWritten named (history ++ [use]) part =
      if part = other then some value else lastWritten named history part := by
  by_cases hp : part = other
  · simp [lastWritten, hc, ht, hp]
  · simp [lastWritten, hc, ht, hp, List.lookup_cons, beq_eq_false_iff_ne.mpr hp]

theorem lastWritten_look (hc : use.clears = false) (ht : use.target? named = none) :
    lastWritten named (history ++ [use]) part = lastWritten named history part := by
  simp [lastWritten, hc, ht]

theorem read_write (memory : Memory) (value : Int64) (part other : Part) :
    (memory.write value other.accessor).read part =
      if part = other then value else memory.read part := by
  cases other with
  | accumulator => cases part <;> rfl
  | instructionPointer => cases part <;> rfl
  | register address =>
    cases part with
    | accumulator => rfl
    | instructionPointer => rfl
    | register a =>
      have hget := get_set memory address a value
      simp only [Part.register.injEq, eq_comm (a := a)]
      exact hget

theorem holds_write (memory : Memory) (value : Int64) (part : Part) (a : UInt64) :
    (memory.write value part.accessor).holds a =
      if Part.register a = part then true else memory.holds a := by
  cases part with
  | accumulator => rfl
  | instructionPointer => rfl
  | register address =>
    have hholds : (memory.write value (Part.register address).accessor).holds a = _ :=
      holds_set memory address a value
    rw [hholds]
    by_cases ha : a = address
    · simp [ha]
    · simp [ha, Ne.symm ha]

theorem toNat_extent (a : UInt64) :
    (Contents.extent a).toNat = min (a.toNat + 1) 0xFFFFFFFFFFFFFFFF := by
  have hlt := a.toNat_lt
  have hsum : (a + 1).toNat = (a.toNat + 1) % 0x10000000000000000 := UInt64.toNat_add a 1
  unfold Contents.extent
  split
  · rename_i hzero
    rw [hzero] at hsum
    have hzero' : (0 : UInt64).toNat = 0 := rfl
    omega
  · rename_i hne
    have hne' : (a + 1).toNat ≠ 0 := fun h => hne (UInt64.toNat_inj.mp h)
    omega

theorem toNat_size_set (memory : Memory) (address : UInt64) (value : Int64) :
    (memory.set address value).size.toNat =
      max memory.size.toNat (min (address.toNat + 1) 0xFFFFFFFFFFFFFFFF) := by
  have hsize : (memory.set address value).size =
      if memory.size ≤ Contents.extent address then Contents.extent address else memory.size :=
    rfl
  rw [hsize, ← toNat_extent]
  split
  · rename_i hle
    rw [UInt64.le_iff_toNat_le] at hle
    omega
  · rename_i hle
    rw [UInt64.le_iff_toNat_le] at hle
    omega

end

/-- The register at an address is held, and none at a higher one. -/
def Highest (memory : Memory) (a : UInt64) : Prop :=
  memory.holds a = true ∧ ∀ b, memory.holds b = true → b ≤ a

/-- The size of a memory follows from the highest register that it holds. -/
def Measured (memory : Memory) : Prop :=
  (memory.size = 0 ∧ ∀ a, memory.holds a = false) ∨
    ∃ a, memory.Highest a ∧ memory.size.toNat = min (a.toNat + 1) 0xFFFFFFFFFFFFFFFF

theorem highest_set {memory : Memory} {address : UInt64} (value : Int64)
    (h : ∀ b, memory.holds b = true → b ≤ address) :
    (memory.set address value).Highest address := by
  refine ⟨by simp [holds_set], ?_⟩
  intro b hb
  simp only [holds_set, Bool.or_eq_true, beq_iff_eq] at hb
  rcases hb with rfl | hb
  · exact UInt64.le_refl _
  · exact h b hb

theorem Highest.set_below {memory : Memory} {a address : UInt64} (h : memory.Highest a)
    (value : Int64) (hle : address ≤ a) : (memory.set address value).Highest a := by
  refine ⟨by simp [holds_set, h.1], ?_⟩
  intro b hb
  simp only [holds_set, Bool.or_eq_true, beq_iff_eq] at hb
  rcases hb with rfl | hb
  · exact hle
  · exact h.2 b hb

theorem Measured.set {memory : Memory} (h : memory.Measured) (address : UInt64) (value : Int64) :
    (memory.set address value).Measured := by
  have hsize := toNat_size_set memory address value
  rcases h with ⟨hzero, hnone⟩ | ⟨a, hhigh, hmeasure⟩
  · refine .inr ⟨address, highest_set value (by simp [hnone]), ?_⟩
    rw [hsize, hzero]
    exact Nat.max_eq_right (Nat.zero_le _)
  · rcases UInt64.le_total a address with hup | hdown
    · refine .inr ⟨address, highest_set value ?_, ?_⟩
      · intro b hb
        exact UInt64.le_trans (hhigh.2 b hb) hup
      · rw [UInt64.le_iff_toNat_le] at hup
        omega
    · refine .inr ⟨a, hhigh.set_below value hdown, ?_⟩
      rw [UInt64.le_iff_toNat_le] at hdown
      omega

theorem Measured.size_eq_zero_iff {memory : Memory} (h : memory.Measured) :
    memory.size = 0 ↔ ∀ a, memory.holds a = false := by
  rcases h with ⟨hzero, hnone⟩ | ⟨a, hhigh, hmeasure⟩
  · exact iff_of_true hzero hnone
  · refine iff_of_false ?_ ?_
    · intro hzero
      have hzero' : memory.size.toNat = 0 := by rw [hzero]; rfl
      omega
    · intro hnone
      exact absurd hhigh.1 (by simp [hnone])

/-- A memory shows what was written to it. -/
structure Records (named : NamedRegisters Part) (history : List Use) (memory : Memory) : Prop where
  names : memory.named = named.map Part.accessor
  read : ∀ part, memory.read part = (lastWritten named history part).getD 0
  holds : ∀ a, memory.holds a = (lastWritten named history (.register a)).isSome
  measured : memory.Measured

section
variable {named : NamedRegisters Part} {history : List Use} {use : Use} {memory : Memory}
  {value : Int64} {part : Part}

theorem records_new (named : NamedRegisters Part) :
    Records named [] { named := named.map Part.accessor } where
  names := rfl
  read := by
    intro part
    cases part with
    | accumulator => rfl
    | instructionPointer => rfl
    | register a => exact get_clear { named := named.map Part.accessor } a
  holds := holds_clear { named := named.map Part.accessor }
  measured := .inl ⟨rfl, holds_clear { named := named.map Part.accessor }⟩

theorem Records.clear (h : Records named history memory) (hc : use.clears = true) :
    Records named (history ++ [use]) memory.clear := by
  refine ⟨h.names, ?_, ?_, .inl ⟨rfl, holds_clear memory⟩⟩
  · intro part
    rw [lastWritten_clear hc]
    cases part with
    | accumulator => rfl
    | instructionPointer => rfl
    | register a => exact get_clear memory a
  · intro a
    rw [lastWritten_clear hc]
    exact holds_clear memory a

theorem Records.write (h : Records named history memory) (hc : use.clears = false)
    (ht : use.target? named = some (part, value)) :
    Records named (history ++ [use]) (memory.write value part.accessor) := by
  refine ⟨?_, ?_, ?_, ?_⟩
  · cases part <;> exact h.names
  · intro other
    rw [read_write, lastWritten_write hc ht, h.read]
    split <;> rfl
  · intro a
    rw [holds_write, lastWritten_write hc ht, h.holds]
    split <;> rfl
  · cases part with
    | accumulator => exact h.measured
    | instructionPointer => exact h.measured
    | register address => exact h.measured.set address value

theorem Records.after (h : Records named history memory) (use : Use) :
    Records named (history ++ [use]) (memory.after use) := by
  rcases after_cases h.names use with ⟨hc, -, hafter⟩ | ⟨part, value, hc, ht, hafter⟩ |
    ⟨hc, ht, hafter⟩
  · rw [hafter]
    exact h.clear hc
  · rw [hafter]
    exact h.write hc ht
  · rw [hafter]
    refine ⟨h.names, ?_, ?_, h.measured⟩
    · intro part
      rw [lastWritten_look hc ht, h.read]
    · intro a
      rw [lastWritten_look hc ht, h.holds]

theorem records_used (named : NamedRegisters Part) (history : List Use) :
    Records named history (used named history) := by
  induction history using List.reverseRecOn with
  | nil => exact records_new named
  | append_singleton history use ih =>
    rw [used_concat]
    exact ih.after use

end

/-- What a write to one part of a memory leaves as it is. -/
def Spares (before after : Memory) : Part → Prop
  | .accumulator => after.registers = before.registers ∧ after.size = before.size ∧
      after.instructionPointer = before.instructionPointer
  | .instructionPointer => after.registers = before.registers ∧ after.size = before.size ∧
      after.accumulator = before.accumulator
  | .register address => (∀ a, a ≠ address → after.get a = before.get a ∧
      after.holds a = before.holds a) ∧ after.accumulator = before.accumulator ∧
      after.instructionPointer = before.instructionPointer

theorem spares_write (memory : Memory) (value : Int64) (part : Part) :
    memory.Spares (memory.write value part.accessor) part := by
  cases part with
  | accumulator => exact ⟨rfl, rfl, rfl⟩
  | instructionPointer => exact ⟨rfl, rfl, rfl⟩
  | register address =>
    refine ⟨?_, rfl, rfl⟩
    intro a ha
    constructor
    · exact (get_set memory address a value).trans (if_neg ha.symm)
    · rw [holds_write, if_neg (by simpa using ha)]

/-- A memory is a faithful sparse store of what was written to it since it was cleared. Each part
shows what it was given last, or zero; the registers that were written are held, with zero too, and
are listed by ascending address; the size is one more than the highest of them as far as there is
such a number, and zero if there is none. The registers, the accumulator and the pointer do not
touch each other, and the names outlast everything. -/
theorem memory_is_sparse_store (named : NamedRegisters Part) (history : List Use) :
    (∀ a, (used named history).get a = (lastWritten named history (.register a)).getD 0) ∧
    (∀ a, (used named history).holds a = true ↔
      ∃ value, lastWritten named history (.register a) = some value) ∧
    (∀ a value, (a, value) ∈ (used named history).cells ↔
      lastWritten named history (.register a) = some value) ∧
    (used named history).cells.Pairwise (fun c d => c.1 < d.1) ∧
    ((used named history).size = 0 ↔ ∀ a, (used named history).holds a = false) ∧
    ((used named history).size ≠ 0 → ∃ a, (used named history).Highest a ∧
      (used named history).size.toNat = min (a.toNat + 1) 0xFFFFFFFFFFFFFFFF) ∧
    (used named history).accumulator = (lastWritten named history .accumulator).getD 0 ∧
    (used named history).instructionPointer =
      (lastWritten named history .instructionPointer).getD 0 ∧
    (∀ name, (used named history).readNamed name =
      (named.lookup name).map fun part => (lastWritten named history part).getD 0) ∧
    (∀ use part value, use.target? named = some (part, value) →
      (used named history).Spares (used named (history ++ [use])) part) ∧
    (used named history).named = named.map Part.accessor := by
  have h := records_used named history
  refine ⟨fun a => h.read (.register a), ?_, ?_, pairwise_cells _, h.measured.size_eq_zero_iff, ?_,
    h.read .accumulator, h.read .instructionPointer, ?_, ?_, h.names⟩
  · intro a
    rw [h.holds, Option.isSome_iff_exists]
  · intro a value
    have hget : (used named history).get a = _ := h.read (.register a)
    rw [mem_cells_iff, h.holds, hget]
    cases lastWritten named history (.register a) <;> simp
  · intro hne
    rcases h.measured with ⟨hzero, -⟩ | hmeasured
    · exact absurd hzero hne
    · exact hmeasured
  · intro name
    rw [readNamed, h.names, NamedRegisters.lookup_map]
    cases named.lookup name with
    | none => rfl
    | some part => exact congrArg some (h.read part)
  · intro use part value htarget
    rw [used_concat, after_of_target? h.names htarget]
    exact spares_write ..

end Memory

end RegisterMachine

import RegisterMachine.Json.Writer
import RegisterMachine.Memory.Named
import RegisterMachine.Text.Integer

namespace RegisterMachine

/-- What a memory contains: an accumulator, an instruction pointer and registers of which only
those that were written are stored. The size is one more than the highest address written, up to
the last address. -/
structure Contents where
  accumulator : Int64 := 0
  registers : Std.TreeMap UInt64 Int64 := ∅
  instructionPointer : Int64 := 0
  size : UInt64 := 0

namespace Contents

/-- The value of a register; one that was never written holds zero. -/
def get (contents : Contents) (address : UInt64) : Int64 :=
  contents.registers.getD address 0

/-- Whether a register was written, be it with zero. -/
def holds (contents : Contents) (address : UInt64) : Bool :=
  contents.registers.contains address

/-- The size of a memory whose highest written address is the given one. -/
def extent (address : UInt64) : UInt64 :=
  if address + 1 = 0 then address else address + 1

def set (contents : Contents) (address : UInt64) (value : Int64) : Contents :=
  { contents with
    registers := contents.registers.insert address value
    size := max contents.size (extent address) }

/-- The registers that were written, by ascending address. -/
def cells (contents : Contents) : List (UInt64 × Int64) :=
  contents.registers.toList

end Contents

/-- How a value is read from a memory's contents and put into them. -/
structure Accessor where
  get : Contents → Int64
  set : Contents → Int64 → Contents

namespace Accessor

def accumulator : Accessor where
  get contents := contents.accumulator
  set contents value := { contents with accumulator := value }

def instructionPointer : Accessor where
  get contents := contents.instructionPointer
  set contents pointer := { contents with instructionPointer := pointer }

def register (address : UInt64) : Accessor where
  get contents := contents.get address
  set contents value := contents.set address value

end Accessor

/-- Contents, and names under which a machine lets them be read and written. -/
structure Memory extends Contents where
  named : NamedRegisters Accessor := .empty

namespace Memory

def set (memory : Memory) (address : UInt64) (value : Int64) : Memory :=
  { memory with toContents := memory.toContents.set address value }

def setAccumulator (memory : Memory) (value : Int64) : Memory :=
  { memory with accumulator := value }

def setInstructionPointer (memory : Memory) (pointer : Int64) : Memory :=
  { memory with instructionPointer := pointer }

/-- Forgets all that was written; the names describe the machine and stay. -/
def clear (memory : Memory) : Memory :=
  { named := memory.named }

/-- The memory after a value was put into it by an accessor. -/
def write (memory : Memory) (value : Int64) (accessor : Accessor) : Memory :=
  { memory with toContents := accessor.set memory.toContents value }

def readNamed (memory : Memory) (name : String) : Option Int64 :=
  (memory.named.lookup name).map fun accessor => accessor.get memory.toContents

/-- The memory after a write to a named register, if there is one of that name. -/
def writeNamed (memory : Memory) (name : String) (value : Int64) : Option Memory :=
  (memory.named.lookup name).map (memory.write value)

/-- The memory as a document, registers by ascending address. -/
def toJson (memory : Memory) : String :=
  Json.object [
    ("accumulator", Text.decimal memory.accumulator.toInt),
    ("registers", Json.object (memory.cells.map fun (address, value) =>
      (Text.natural address.toNat, Text.decimal value.toInt))),
    ("instruction_pointer", Text.decimal memory.instructionPointer.toInt),
    ("size", Text.natural memory.size.toNat)]

theorem get_set (memory : Memory) (a b : UInt64) (value : Int64) :
    (memory.set a value).get b = if a = b then value else memory.get b := by
  simp only [Contents.get, set, Contents.set, Std.TreeMap.getD_insert,
    Std.LawfulEqCmp.compare_eq_iff_eq]

theorem holds_set (memory : Memory) (a b : UInt64) (value : Int64) :
    (memory.set a value).holds b = (a == b || memory.holds b) := by
  have h : (compare a b == .eq) = (a == b) := by
    rw [Bool.eq_iff_iff, beq_iff_eq, beq_iff_eq, Std.LawfulEqCmp.compare_eq_iff_eq]
  simp only [Contents.holds, set, Contents.set, Std.TreeMap.contains_insert, h]

theorem get_clear (memory : Memory) (a : UInt64) : memory.clear.get a = 0 := by
  simp [Contents.get, clear]

theorem holds_clear (memory : Memory) (a : UInt64) : memory.clear.holds a = false := by
  simp [Contents.holds, clear]

/-- The cells are the written registers with their values. -/
theorem mem_cells_iff {memory : Memory} {a : UInt64} {v : Int64} :
    (a, v) ∈ memory.cells ↔ memory.holds a = true ∧ memory.get a = v := by
  rw [Contents.cells, Std.TreeMap.mem_toList_iff_getElem?_eq_some]
  simp only [Contents.holds, Contents.get, Std.TreeMap.contains_eq_isSome_getElem?,
    Std.TreeMap.getD_eq_getD_getElem?]
  cases memory.registers[a]? <;> simp

/-- The cells are listed by strictly ascending address. -/
theorem pairwise_cells (memory : Memory) : memory.cells.Pairwise (fun c d => c.1 < d.1) :=
  Std.TreeMap.ordered_keys_toList.imp fun h => by simpa [Std.compare_eq_lt] using h

end Memory

end RegisterMachine

import RegisterMachine.Workspace

namespace RegisterMachine.Ram

/-- An integer as a 64-bit value, if it is one. -/
def checked (n : Int) : Option Int64 :=
  if -0x8000000000000000 ≤ n ∧ n ≤ 0x7FFFFFFFFFFFFFFF then some (Int64.ofInt n) else none

/-- A result that fits is kept exactly. -/
theorem checked_eq_some_iff {n : Int} {value : Int64} :
    checked n = some value ↔ value.toInt = n := by
  have hl := value.le_toInt
  have hh := value.toInt_lt
  unfold checked
  constructor
  · intro h
    split at h
    · rename_i hr
      rw [← Option.some.inj h, Int64.toInt_ofInt_of_le (by omega) (by omega)]
    · simp at h
  · intro h
    subst n
    rw [if_pos (by omega), Int64.ofInt_toInt]

/-- The register with a given number. -/
def registerAt (number : Int64) : Except Problem UInt64 :=
  if number < 0 then .error (.negativeRegister number) else .ok number.toUInt64

/-- The register that an operand designates. -/
def destination (memory : Memory) (instruction : Instruction) : Except Problem UInt64 :=
  match instruction.value with
  | none => .error .missingOperand
  | some value =>
    match instruction.mode with
    | .registry => registerAt value
    | .pointer => do registerAt (memory.get (← registerAt value))
    | .direct => .error .directDestination

/-- The value that an operand denotes. -/
def operand (memory : Memory) (instruction : Instruction) : Except Problem Int64 :=
  match instruction.mode with
  | .direct =>
    match instruction.value with
    | none => .error .missingOperand
    | some value => .ok value
  | .registry | .pointer => (destination memory instruction).map memory.get

end RegisterMachine.Ram

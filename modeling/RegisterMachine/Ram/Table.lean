import RegisterMachine.OpcodeTable
import RegisterMachine.Ram.Handlers

namespace RegisterMachine.Ram

/-- The instructions of the random access machine. -/
def entries : List Entry :=
  let multiply := (Descriptor.numeric "MUL" true true).described
    "Multiply the accumulator by the operand"
  [⟨(Descriptor.numeric "LOAD" true true).described "Load the operand into the accumulator",
      load⟩,
    ⟨(Descriptor.numeric "STORE" false true).described "Store the accumulator into a register",
      store⟩,
    ⟨(Descriptor.numeric "ADD" true true).described "Add the operand to the accumulator", add⟩,
    ⟨(Descriptor.numeric "SUB" true true).described
      "Subtract the operand from the accumulator", sub⟩,
    ⟨multiply, mul⟩,
    ⟨multiply.renamed "MULT", mul⟩,
    ⟨(Descriptor.numeric "DIV" true true).described
      "Divide the accumulator by the operand, truncating toward zero", div⟩,
    ⟨(Descriptor.numeric "READ" false true).described "Read the next input into a register",
      read⟩,
    ⟨(Descriptor.numeric "WRITE" true true).described "Output the operand", write⟩,
    ⟨(Descriptor.jump "JUMP").described "Jump to a label", jump⟩,
    ⟨(Descriptor.jump "JZERO").described "Jump to a label if the accumulator is zero",
      jumpIfZero⟩,
    ⟨(Descriptor.jump "JGTZ").described "Jump to a label if the accumulator is positive",
      jumpIfPositive⟩,
    ⟨(Descriptor.bare "HALT").described "Stop the program", halt⟩]

/-- The names under which the machine's accumulator and pointer are known. -/
def named : NamedRegisters Accessor :=
  .ofList [("ACC", .accumulator), ("IP", .instructionPointer)]

/-- The table of the machine's instructions, which has no problem. -/
def table : OpcodeTable :=
  .ofEntries .insensitive entries (by decide +kernel)

end RegisterMachine.Ram

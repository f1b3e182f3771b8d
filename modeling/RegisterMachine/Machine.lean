import RegisterMachine.Ram.Table

namespace RegisterMachine

/-- A machine as it is described: its instructions and the names of parts of its memory. -/
structure Machine where
  name : String
  policy : CasePolicy := .insensitive
  entries : List Entry
  named : NamedRegisters Accessor := .empty

namespace Machine

/-- The random access machine. -/
def ram : Machine where
  name := "RAM"
  policy := Ram.table.policy
  entries := Ram.table.entries
  named := Ram.named

/-- The table of a machine's instructions; a fault notes the machine. -/
def table (machine : Machine) : Except Fault OpcodeTable :=
  (OpcodeTable.build machine.policy machine.entries).mapError (·.noting "machine" machine.name)

end Machine

end RegisterMachine

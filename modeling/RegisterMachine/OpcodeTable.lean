import RegisterMachine.Descriptor
import RegisterMachine.Text.Basic
import RegisterMachine.Workspace

namespace RegisterMachine

/-- Whether the case of the letters of a mnemonic counts. -/
inductive CasePolicy where
  | sensitive
  | insensitive
  deriving DecidableEq, Repr

def CasePolicy.name : CasePolicy → String
  | .sensitive => "Sensitive"
  | .insensitive => "Insensitive"

/-- Two mnemonics are the same under a policy exactly when their keys are. -/
def CasePolicy.key : CasePolicy → String → String
  | .sensitive, mnemonic => mnemonic
  | .insensitive, mnemonic => Text.foldCase mnemonic

/-- An opcode's description and what it does. -/
structure Entry where
  descriptor : Descriptor
  handler : Handler

def Entry.key (policy : CasePolicy) (entry : Entry) : String :=
  policy.key entry.descriptor.mnemonic

/-- Enters entries into an index of their keys, the first of them under the given place, until
one has a problem: its descriptor breaks a rule, or its key is taken. The key is entered all the
same before that is noticed. -/
def OpcodeTable.enter (policy : CasePolicy) (index : Std.TreeMap String Nat) (place : Nat) :
    List Entry → Except Problem (Std.TreeMap String Nat)
  | [] => .ok index
  | entry :: rest =>
    match entry.descriptor.flaw? with
    | some problem => .error problem
    | none =>
      let (taken, index) := index.containsThenInsert (entry.key policy) place
      if taken then .error (.duplicateOpcode entry.descriptor.mnemonic)
      else OpcodeTable.enter policy index (place + 1) rest

/-- Opcodes in the order of their declaration, and an index into which all of them could be
entered. -/
structure OpcodeTable where
  policy : CasePolicy
  entries : List Entry
  index : Std.TreeMap String Nat
  entered : OpcodeTable.enter policy ∅ 0 entries = .ok index

namespace OpcodeTable

/-- Builds a table, or reports the first problem of its entries. -/
def build (policy : CasePolicy) (entries : List Entry) : Except Fault OpcodeTable :=
  match entered : enter policy ∅ 0 entries with
  | .ok index => .ok ⟨policy, entries, index, entered⟩
  | .error problem => .error (problem.fault.raisedIn "registry::new")

/-- The table of entries that are known to have no problem. -/
def ofEntries (policy : CasePolicy) (entries : List Entry)
    (h : (enter policy ∅ 0 entries).isOk = true) : OpcodeTable where
  policy := policy
  entries := entries
  index := (enter policy ∅ 0 entries).toOption.getD ∅
  entered := by
    cases hindex : enter policy ∅ 0 entries with
    | ok index => rfl
    | error problem => rw [hindex] at h; cases h

def find? (table : OpcodeTable) (mnemonic : String) : Option Entry := do
  let place ← table.index[table.policy.key mnemonic]?
  table.entries[place]?

theorem mem_of_find? {table : OpcodeTable} {mnemonic : String} {entry : Entry}
    (h : table.find? mnemonic = some entry) : entry ∈ table.entries := by
  obtain ⟨place, -, hentry⟩ := Option.bind_eq_some_iff.mp h
  exact List.mem_of_getElem? hentry

/-- The descriptor under a mnemonic, in any spelling that the policy admits. -/
def resolve? (table : OpcodeTable) (mnemonic : String) : Option Descriptor :=
  (table.find? mnemonic).map Entry.descriptor

def contains (table : OpcodeTable) (mnemonic : String) : Bool :=
  table.index.contains (table.policy.key mnemonic)

def descriptors (table : OpcodeTable) : List Descriptor :=
  table.entries.map Entry.descriptor

def size (table : OpcodeTable) : Nat :=
  table.entries.length

/-- Executes an operation by the handler of its opcode; a fault notes the operation. -/
def dispatch (table : OpcodeTable) : Handler := fun program operation =>
  match table.find? operation.opcode with
  | none =>
    throw (((Problem.invalidOpcode operation.opcode).fault.raisedIn
      "registry::dispatch").atOperation operation)
  | some entry =>
    EStateM.adaptExcept (·.atOperation operation) (entry.handler program operation)

/-- Apart from the note in its fault, dispatch does what the handler does. -/
theorem dispatch_apply (table : OpcodeTable) (program : Program) (operation : Operation)
    {entry : Entry} (h : table.find? operation.opcode = some entry) (w : Workspace) :
    table.dispatch program operation w =
      match entry.handler program operation w with
      | .ok line after => .ok line after
      | .error fault after => .error (fault.atOperation operation) after := by
  simp only [dispatch, h, EStateM.adaptExcept]
  cases entry.handler program operation w with
  | ok line after => rfl
  | error fault after => rfl

end OpcodeTable

end RegisterMachine

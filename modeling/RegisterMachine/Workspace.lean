import RegisterMachine.Memory.Basic
import RegisterMachine.Problem
import RegisterMachine.Program
import RegisterMachine.Tape

namespace RegisterMachine

/-- All that an operation can change. -/
structure Workspace where
  memory : Memory := {}
  tape : Tape := .blank

/-- An action on a workspace that may fail; a failure keeps the changes made before it. -/
abbrev Action := EStateM Fault Workspace

/-- What an opcode does: it acts on the workspace of a program and may emit a line. -/
abbrev Handler := Program → Operation → Action (Option String)

namespace Action

theorem pure_apply {α : Type} (a : α) (w : Workspace) : (pure a : Action α) w = .ok a w := rfl

theorem throw_apply {α : Type} (fault : Fault) (w : Workspace) :
    (throw fault : Action α) w = .error fault w := rfl

theorem get_apply (w : Workspace) : (get : Action Workspace) w = .ok w w := rfl

theorem bind_apply {α β : Type} (action : Action α) (next : α → Action β) (w : Workspace) :
    (action >>= next) w =
      match action w with
      | .ok a after => next a after
      | .error fault after => .error fault after := by
  simp only [bind, EStateM.bind]
  cases action w with
  | ok a after => rfl
  | error fault after => rfl

end Action

namespace Workspace

def modifyMemory (change : Memory → Memory) : Action Unit :=
  modify fun workspace => { workspace with memory := change workspace.memory }

def modifyTape (change : Tape → Tape) : Action Unit :=
  modify fun workspace => { workspace with tape := change workspace.tape }

theorem modifyMemory_apply (change : Memory → Memory) (w : Workspace) :
    modifyMemory change w = .ok () { w with memory := change w.memory } := rfl

/-- Goes to the first operation with a label. The pointer is left one before it, because every
step ends by advancing the pointer. -/
def jumpTo (program : Program) (label : String) : Action Unit :=
  match program.findLabel label with
  | none => throw ((Problem.labelNotFound label).fault.raisedIn "context::jump_to")
  | some index => modifyMemory (·.setInstructionPointer (Int64.ofInt (index - 1)))

/-- Leaves the pointer behind the last operation. -/
def halt (program : Program) : Action Unit :=
  modifyMemory (·.setInstructionPointer (Int64.ofNat program.size))

end Workspace

end RegisterMachine

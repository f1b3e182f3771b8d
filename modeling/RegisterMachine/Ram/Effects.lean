import RegisterMachine.Ram.Table

namespace RegisterMachine.Ram

/-- What an operation comes to: it fails, or changes one part of the memory, or emits a value, or
does nothing. The value that reading puts into a register is taken from the tape. -/
inductive Effect where
  | fail (fault : Fault)
  | load (value : Int64)
  | store (address : UInt64) (value : Int64)
  | consume (address : UInt64) (value : Int64)
  | emit (value : Int64)
  | goTo (pointer : Int64)
  | pass

namespace Effect

def enact (w : Workspace) : Effect → EStateM.Result Fault Workspace (Option String)
  | fail fault => .error fault w
  | load value => .ok none { w with memory := w.memory.setAccumulator value }
  | store address value => .ok none { w with memory := w.memory.set address value }
  | consume address value => .ok none ⟨w.memory.set address value, w.tape.advance⟩
  | emit value => .ok (some (Text.decimal value.toInt)) w
  | goTo pointer => .ok none { w with memory := w.memory.setInstructionPointer pointer }
  | pass => .ok none w

/-- Whether a token is consumed. -/
def consumes : Effect → Bool
  | consume _ _ => true
  | _ => false

/-- Where the pointer is put, if it is put anywhere. -/
def pointer? : Effect → Option Int64
  | goTo pointer => some pointer
  | _ => none

section
variable {effect : Effect} {w after : Workspace} {line : Option String} {fault : Fault}

/-- What fails changes nothing. -/
theorem enact_eq_error (h : effect.enact w = .error fault after) :
    effect = .fail fault ∧ after = w := by
  cases effect with
  | fail fault => cases h; exact ⟨rfl, rfl⟩
  | _ => cases h

theorem pointer_enact (h : effect.enact w = .ok line after) :
    after.memory.instructionPointer = effect.pointer?.getD w.memory.instructionPointer := by
  cases effect <;> cases h <;> rfl

end

end Effect

/-- The kinds of opcode; those that differ by an operator or by a condition are of one kind. -/
inductive Deed where
  | load
  | store
  | compute (symbol : String) (apply : Int → Int → Int)
  | divide
  | read
  | write
  | jump
  | jumpIf (condition : Int64 → Bool)
  | halt

/-- A value is computed from the accumulator and the operand. -/
def computed (symbol : String) (apply : Int → Int → Int) (operation : Operation) (w : Workspace) :
    Effect :=
  match operand w.memory operation.toInstruction with
  | .error problem => .fail problem.fault
  | .ok right =>
    match checked (apply w.memory.accumulator.toInt right.toInt) with
    | none => .fail (Problem.arithmeticOverflow symbol w.memory.accumulator right).fault
    | some result => .load result

/-- The pointer is put one before the target. -/
def aimed (program : Program) (operation : Operation) : Effect :=
  match operation.target with
  | none => .fail Problem.missingOperand.fault
  | some target =>
    match program.findLabel target with
    | none => .fail ((Problem.labelNotFound target).fault.raisedIn "context::jump_to")
    | some index => .goTo (Int64.ofInt (index - 1))

namespace Deed

def handler : Deed → Handler
  | load => Ram.load
  | store => Ram.store
  | compute symbol apply => arithmetic symbol apply
  | divide => div
  | read => Ram.read
  | write => Ram.write
  | jump => Ram.jump
  | jumpIf condition => Ram.jumpIf condition
  | halt => Ram.halt

/-- What an operation of each kind comes to. -/
def effect (program : Program) (operation : Operation) (w : Workspace) : Deed → Effect
  | load =>
    match operand w.memory operation.toInstruction with
    | .error problem => .fail problem.fault
    | .ok value => .load value
  | store =>
    match destination w.memory operation.toInstruction with
    | .error problem => .fail problem.fault
    | .ok address => .store address w.memory.accumulator
  | compute symbol apply => computed symbol apply operation w
  | divide =>
    match operand w.memory operation.toInstruction with
    | .error problem => .fail problem.fault
    | .ok divisor =>
      if divisor = 0 then .fail (Problem.divisionByZero.fault.raisedIn "ram::div")
      else computed "/" Int.tdiv operation w
  | read =>
    match w.tape.peek with
    | none => .fail ((Problem.inputExhausted w.tape.cursor).fault.raisedIn "ram::read")
    | some token =>
      match Text.readInt64 (Text.trim token) with
      | .error fault => .fail ((Problem.invalidInput token fault).fault.raisedIn "ram::read")
      | .ok value =>
        match destination w.memory operation.toInstruction with
        | .error problem => .fail problem.fault
        | .ok address => .consume address value
  | write =>
    match operand w.memory operation.toInstruction with
    | .error problem => .fail problem.fault
    | .ok value => .emit value
  | jump => aimed program operation
  | jumpIf condition =>
    if condition w.memory.accumulator then aimed program operation else .pass
  | halt => .goTo (Int64.ofNat program.size)

end Deed

section
variable (program : Program) (operation : Operation) (w : Workspace)

theorem attempt_ok {α : Type} (a : α) : attempt (.ok a) = pure a := rfl

theorem load_apply :
    load program operation w = (Deed.load.effect program operation w).enact w := by
  simp only [load, Action.bind_apply, Action.get_apply, Deed.effect]
  cases operand w.memory operation.toInstruction with
  | error problem => rfl
  | ok value => rfl

theorem store_apply :
    store program operation w = (Deed.store.effect program operation w).enact w := by
  simp only [store, Action.bind_apply, Action.get_apply, Deed.effect]
  cases destination w.memory operation.toInstruction with
  | error problem => rfl
  | ok address => rfl

theorem arithmetic_apply (symbol : String) (apply : Int → Int → Int) :
    arithmetic symbol apply program operation w = (computed symbol apply operation w).enact w := by
  simp only [arithmetic, Action.bind_apply, Action.get_apply, computed]
  cases operand w.memory operation.toInstruction with
  | error problem => rfl
  | ok right =>
    simp only [attempt_ok, Action.pure_apply]
    cases checked (apply w.memory.accumulator.toInt right.toInt) with
    | none => rfl
    | some result => rfl

/-- Division is arithmetic once the divisor is known not to be zero. -/
theorem div_apply :
    div program operation w = (Deed.divide.effect program operation w).enact w := by
  simp only [div, Action.bind_apply, Action.get_apply, Deed.effect]
  cases operand w.memory operation.toInstruction with
  | error problem => rfl
  | ok divisor =>
    simp only [attempt_ok, Action.pure_apply]
    by_cases h : divisor = 0
    · simp only [h, if_true, Action.bind_apply, Action.throw_apply]
      rfl
    · simp only [h, if_false]
      exact arithmetic_apply program operation w "/" Int.tdiv

/-- Reading writes one register and consumes one token, or does neither. -/
theorem read_apply :
    read program operation w = (Deed.read.effect program operation w).enact w := by
  simp only [read, Action.bind_apply, Action.get_apply, Deed.effect]
  cases w.tape.peek with
  | none => rfl
  | some token =>
    simp only
    cases Text.readInt64 (Text.trim token) with
    | error fault => rfl
    | ok value =>
      simp only [Action.bind_apply]
      cases destination w.memory operation.toInstruction with
      | error problem => rfl
      | ok address => rfl

theorem write_apply :
    write program operation w = (Deed.write.effect program operation w).enact w := by
  simp only [write, Action.bind_apply, Action.get_apply, Deed.effect]
  cases operand w.memory operation.toInstruction with
  | error problem => rfl
  | ok value => rfl

theorem jump_apply : jump program operation w = (aimed program operation).enact w := by
  unfold jump aimed
  cases operation.target with
  | none => rfl
  | some target =>
    simp only [Action.bind_apply, Workspace.jumpTo]
    cases program.findLabel target with
    | none => rfl
    | some index => rfl

/-- A jump whose condition fails does nothing, whatever its target. -/
theorem jumpIf_apply (condition : Int64 → Bool) :
    jumpIf condition program operation w =
      ((Deed.jumpIf condition).effect program operation w).enact w := by
  simp only [jumpIf, Action.bind_apply, Action.get_apply, Deed.effect]
  split
  · exact jump_apply program operation w
  · rfl

/-- A handler does what its kind of opcode comes to. -/
theorem Deed.handler_apply (deed : Deed) :
    deed.handler program operation w = (deed.effect program operation w).enact w := by
  cases deed with
  | load => exact load_apply program operation w
  | store => exact store_apply program operation w
  | compute symbol apply => exact arithmetic_apply program operation w symbol apply
  | divide => exact div_apply program operation w
  | read => exact read_apply program operation w
  | write => exact write_apply program operation w
  | jump => exact jump_apply program operation w
  | jumpIf condition => exact jumpIf_apply program operation w condition
  | halt => rfl

end

/-- The kind of each of the machine's opcodes. -/
def deeds : List (String × Deed) :=
  [("LOAD", .load), ("STORE", .store), ("ADD", .compute "+" (· + ·)),
    ("SUB", .compute "-" (· - ·)), ("MUL", .compute "*" (· * ·)), ("MULT", .compute "*" (· * ·)),
    ("DIV", .divide), ("READ", .read), ("WRITE", .write), ("JUMP", .jump),
    ("JZERO", .jumpIf (· == 0)), ("JGTZ", .jumpIf (· > 0)), ("HALT", .halt)]

theorem exists_deed {entry : Entry} (h : entry ∈ entries) :
    ∃ deed, (entry.descriptor.mnemonic, deed) ∈ deeds ∧ entry.handler = deed.handler := by
  have hsame : entries.map (fun entry => (entry.descriptor.mnemonic, entry.handler)) =
      deeds.map fun deed => (deed.1, deed.2.handler) := rfl
  have hmem := List.mem_map_of_mem (f := fun entry => (entry.descriptor.mnemonic, entry.handler)) h
  rw [hsame] at hmem
  obtain ⟨⟨mnemonic, deed⟩, hdeed, heq⟩ := List.mem_map.mp hmem
  obtain ⟨hmnemonic, hhandler⟩ := Prod.mk.inj heq
  exact ⟨deed, hmnemonic ▸ hdeed, hhandler.symm⟩

/-- What holds of every kind of opcode holds of the machine's handlers. -/
theorem forall_handler {P : Handler → Prop} (h : ∀ deed : Deed, P deed.handler) :
    ∀ entry ∈ entries, P entry.handler := by
  intro entry hentry
  obtain ⟨deed, -, hhandler⟩ := exists_deed hentry
  rw [hhandler]
  exact h deed

section
variable {deed : Deed} {mnemonic : String}

theorem read_of_mem_deeds (h : (mnemonic, deed) ∈ deeds) :
    mnemonic = "READ" ∧ deed = .read ∨ mnemonic ≠ "READ" ∧ deed ≠ .read := by
  revert h
  simp only [deeds, List.mem_cons, List.not_mem_nil, or_false, Prod.mk.injEq]
  rintro (⟨rfl, rfl⟩ | ⟨rfl, rfl⟩ | ⟨rfl, rfl⟩ | ⟨rfl, rfl⟩ | ⟨rfl, rfl⟩ | ⟨rfl, rfl⟩ | ⟨rfl, rfl⟩ |
    ⟨rfl, rfl⟩ | ⟨rfl, rfl⟩ | ⟨rfl, rfl⟩ | ⟨rfl, rfl⟩ | ⟨rfl, rfl⟩ | ⟨rfl, rfl⟩) <;> simp

end

end RegisterMachine.Ram

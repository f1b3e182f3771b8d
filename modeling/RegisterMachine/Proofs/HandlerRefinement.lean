import RegisterMachine.Proofs.TextbookView
import RegisterMachine.Ram.Effects

namespace RegisterMachine.Ram
open Textbook (State Command Line Undefined)

section
variable {w : Workspace} {s : State} {instruction : Instruction}

theorem Contents.setAccumulator (h : Contents w s) (value : Int64) :
    Contents { w with memory := w.memory.setAccumulator value }
      (s.setAccumulator value.toInt).advance :=
  ⟨rfl, h.registers, h.tokens⟩

theorem Contents.setRegister (h : Contents w s) (address : UInt64) (value : Int64) :
    Contents { w with memory := w.memory.set address value }
      (s.setRegister address.toNat value.toInt).advance := by
  refine ⟨h.accumulator, ?_, h.tokens⟩
  intro b
  have hb := h.registers b
  simp only [Memory.get_set, State.setRegister, State.advance, UInt64.toNat_inj]
  by_cases he : address = b
  · simp [he]
  · simpa [he, Ne.symm he] using hb

theorem Contents.content (h : Contents w s) {number : Int64} (hn : 0 ≤ number) :
    (w.memory.get number.toUInt64).toInt = s.registers number.toInt.toNat := by
  rw [h.registers, Int64.toNat_toUInt64_of_le hn]
  rfl

/-- Both machines find the same register for an instruction, or neither finds one. -/
theorem Contents.destination (h : Contents w s) {cell : Textbook.Cell}
    (hc : cell? instruction = some cell) :
    (∃ address, destination w.memory instruction = .ok address ∧
        s.address cell = .ok address.toNat) ∨
      (∃ value, destination w.memory instruction = .error (.negativeRegister value) ∧
        s.address cell = .error .negativeDereference) := by
  obtain ⟨number, _, hn, ⟨_, rfl, hd⟩ | ⟨_, rfl, hd⟩⟩ := destination_of_cell w.memory hc
  · refine .inl ⟨number.toUInt64, hd, ?_⟩
    rw [State.address, Int64.toNat_toUInt64_of_le hn]
    rfl
  · have hv := h.content hn
    by_cases hneg : w.memory.get number.toUInt64 < 0
    · have hlt : s.registers number.toInt.toNat < 0 := by
        rw [← hv]
        exact Int64.lt_iff_toInt_lt.mp hneg
      exact .inr ⟨_, by rw [hd, registerAt, if_pos hneg], by rw [State.address, if_pos hlt]⟩
    · have hle := Int64.not_lt.mp hneg
      have hnlt : ¬ s.registers number.toInt.toNat < 0 := by
        rw [← hv]
        exact fun hlt => hneg (Int64.lt_iff_toInt_lt.mpr hlt)
      refine .inl ⟨_, by rw [hd, registerAt, if_neg hneg], ?_⟩
      rw [State.address, if_neg hnlt, Int64.toNat_toUInt64_of_le hle, ← hv]
      rfl

theorem Contents.operand (h : Contents w s) {operand : Textbook.Operand}
    (ho : operand? instruction = some operand) :
    (∃ value, Ram.operand w.memory instruction = .ok value ∧
        s.value operand = .ok value.toInt) ∨
      (∃ value, Ram.operand w.memory instruction = .error (.negativeRegister value) ∧
        s.value operand = .error .negativeDereference) := by
  rcases operand_of_operand? w.memory ho with ⟨value, rfl, hv⟩ | ⟨cell, hc, rfl, hv⟩
  · exact .inl ⟨value, hv, rfl⟩
  · rcases h.destination hc with ⟨address, hd, ha⟩ | ⟨value, hd, ha⟩
    · refine .inl ⟨w.memory.get address, by rw [hv, hd]; rfl, ?_⟩
      rw [State.value, ha, h.registers]
      rfl
    · exact .inr ⟨value, by rw [hv, hd]; rfl, by rw [State.value, ha]; rfl⟩

end

/-- What an operation did to a workspace is what a command did to a state, once the pointer has
moved on. -/
def Answers (n : Nat) : EStateM.Result Fault Workspace (Option String) →
    Except Undefined (Option String × State) → Prop
  | .ok line w, .ok (line', t) => line = line' ∧ Contents w t ∧
      Stands n (Session.advancePointer w.memory.instructionPointer) t.counter
  | .error fault _, .error reason => fault.kind = reason.kind
  | _, _ => False

/-- Both machines are about to execute the same operation. -/
structure Poised (program : Program) (w : Workspace) (s : State) : Prop
    extends Contents w s where
  addressable : program.Addressable
  pointer : w.memory.instructionPointer.toInt = s.counter
  inside : s.counter < program.size

section
variable {program : Program} {operation : Operation} {text : List Line} {w : Workspace}
  {s : State} {operand : Textbook.Operand} {cell : Textbook.Cell}

theorem Poised.next (h : Poised program w s) :
    Stands program.size (Session.advancePointer w.memory.instructionPointer) (s.counter + 1) :=
  stands_next h.addressable h.pointer h.inside

theorem load_refines (h : Poised program w s) (ho : operand? operation.toInstruction = some operand) :
    Answers program.size (load program operation w) (s.execute text (.load operand)) := by
  rw [load_apply, Deed.effect, State.execute]
  rcases h.operand ho with ⟨value, hr, hi⟩ | ⟨value, hr, hi⟩
  · rw [hr, hi]
    exact ⟨rfl, h.setAccumulator value, h.next⟩
  · rw [hr, hi]
    rfl

theorem store_refines (h : Poised program w s) (hc : cell? operation.toInstruction = some cell) :
    Answers program.size (store program operation w) (s.execute text (.store cell)) := by
  rw [store_apply, Deed.effect, State.execute]
  rcases h.destination hc with ⟨address, hr, hi⟩ | ⟨value, hr, hi⟩
  · rw [hr, hi]
    refine ⟨rfl, ?_, h.next⟩
    rw [← h.accumulator]
    exact h.setRegister address w.memory.accumulator
  · rw [hr, hi]
    rfl

/-- A result that fits is the exact one. -/
theorem arithmetic_refines {symbol : String} {f : Int → Int → Int}
    {operator : Textbook.Operator} (h : Poised program w s)
    (ho : operand? operation.toInstruction = some operand)
    (hf : ∀ b, s.value operand = .ok b →
      operator.apply s.accumulator b = .ok (f s.accumulator b))
    (hfits : ∀ n, s.result operator operand = .ok n →
      -0x8000000000000000 ≤ n ∧ n ≤ 0x7FFFFFFFFFFFFFFF) :
    Answers program.size (arithmetic symbol f program operation w)
      (s.execute text (.compute operator operand)) := by
  rw [arithmetic_apply, computed, State.execute]
  rcases h.operand ho with ⟨value, hr, hi⟩ | ⟨value, hr, hi⟩
  · have hresult : s.result operator operand = .ok (f s.accumulator value.toInt) := by
      rw [State.result, hi]
      exact hf _ hi
    have hrange := hfits _ hresult
    obtain ⟨word, hword⟩ : ∃ word : Int64, word.toInt = f s.accumulator value.toInt :=
      ⟨Int64.ofInt _, Int64.toInt_ofInt_of_le (by omega) (by omega)⟩
    have hchecked := checked_eq_some_iff.mpr hword
    rw [hr, hresult, h.accumulator]
    simp only [hchecked]
    refine ⟨rfl, ?_, h.next⟩
    rw [← hword]
    exact h.setAccumulator word
  · rw [hr, State.result, hi]
    rfl

theorem div_refines (h : Poised program w s) (ho : operand? operation.toInstruction = some operand)
    (hfits : ∀ n, s.result .divide operand = .ok n →
      -0x8000000000000000 ≤ n ∧ n ≤ 0x7FFFFFFFFFFFFFFF) :
    Answers program.size (div program operation w) (s.execute text (.compute .divide operand)) := by
  rw [div_apply, Deed.effect]
  rcases h.operand ho with ⟨value, hr, hi⟩ | ⟨value, hr, hi⟩
  · rw [hr]
    by_cases hz : value = 0
    · simp only [hz, if_true, State.execute, State.result, hi, Int64.toInt_zero,
        Textbook.Operator.apply]
      rfl
    · simp only [hz, if_false]
      rw [← arithmetic_apply program]
      have hne : value.toInt ≠ 0 := fun he => hz (Int64.toInt_inj.mp he)
      refine arithmetic_refines h ho ?_ hfits
      intro b hb
      obtain rfl : value.toInt = b := Except.ok.inj (hi.symm.trans hb)
      rw [Textbook.Operator.apply, if_neg hne]
  · rw [hr, State.execute, State.result, hi]
    rfl

theorem read_refines (h : Poised program w s) (hc : cell? operation.toInstruction = some cell) :
    Answers program.size (read program operation w) (s.execute text (.read cell)) := by
  rw [read_apply, Deed.effect, State.execute, Tape.peek_eq_head?, h.tokens]
  cases htokens : s.tokens with
  | nil => rfl
  | cons token rest =>
    simp only [List.head?_cons]
    cases hv : Text.tokenValue? token with
    | none =>
      cases hr : Text.readInt64 (Text.trim token) with
      | error fault => rfl
      | ok value =>
        rw [Text.readInt64_trim_eq_ok_iff.mp hr] at hv
        cases hv
    | some n =>
      obtain ⟨value, hr, rfl⟩ := Text.exists_word_of_tokenValue? hv
      simp only [hr]
      rcases h.destination hc with ⟨address, hd, hi⟩ | ⟨value', hd, hi⟩
      · rw [hd, hi]
        refine ⟨rfl, ⟨h.accumulator, (h.setRegister address value).registers, ?_⟩, h.next⟩
        show w.tape.advance.rest = rest
        rw [Tape.rest_advance, h.tokens, htokens]
        rfl
      · rw [hd, hi]
        rfl

theorem write_refines (h : Poised program w s)
    (ho : operand? operation.toInstruction = some operand) :
    Answers program.size (write program operation w) (s.execute text (.write operand)) := by
  rw [write_apply, Deed.effect, State.execute]
  rcases h.operand ho with ⟨value, hr, hi⟩ | ⟨value, hr, hi⟩
  · rw [hr, hi]
    refine ⟨congrArg some (Text.decimal_eq_repr _), ?_, h.next⟩
    exact ⟨h.accumulator, h.registers, h.tokens⟩
  · rw [hr, hi]
    rfl

theorem jump_refines (h : Poised program w s) (hs : Spells program text) {label : String}
    (ht : operation.target = some label) :
    Answers program.size (jump program operation w)
      ((s.goTo text label).map fun t => (none, t)) := by
  simp only [jump_apply, aimed, ht, State.goTo, hs.findLabel]
  cases hl : program.findLabel label with
  | none => rfl
  | some index =>
    have hi : index < program.size := (Array.findIdx?_eq_some_iff_getElem.mp hl).1
    exact ⟨rfl, ⟨h.accumulator, h.registers, h.tokens⟩, stands_jump h.addressable hi⟩

theorem jumpIf_refines (h : Poised program w s) (hs : Spells program text) {label : String}
    (ht : operation.target = some label) {condition : Int64 → Bool} {taken : Prop}
    [Decidable taken] (hcond : condition w.memory.accumulator = true ↔ taken) :
    Answers program.size (jumpIf condition program operation w)
      (if taken then (s.goTo text label).map fun t => (none, t) else .ok (none, s.advance)) := by
  rw [jumpIf_apply, Deed.effect]
  by_cases hc : taken
  · rw [if_pos (hcond.mpr hc), if_pos hc, ← jump_apply]
    exact jump_refines h hs ht
  · rw [if_neg (fun he => hc (hcond.mp he)), if_neg hc]
    exact ⟨rfl, ⟨h.accumulator, h.registers, h.tokens⟩, h.next⟩

theorem halt_refines (h : Poised program w s) (hs : Spells program text) :
    Answers program.size (halt program operation w) (s.execute text .halt) := by
  rw [State.execute, hs.length]
  exact ⟨rfl, ⟨h.accumulator, h.registers, h.tokens⟩, stands_halt h.addressable⟩

/-- A handler does what the command of its instruction does on the textbook machine, as long as
results fit. -/
theorem Serves.refines {handler : Handler} {command : Command}
    (hserves : Serves operation.toInstruction handler command) (h : Poised program w s)
    (hs : Spells program text)
    (hfits : ∀ operator operand n, command = .compute operator operand →
      s.result operator operand = .ok n → -0x8000000000000000 ≤ n ∧ n ≤ 0x7FFFFFFFFFFFFFFF) :
    Answers program.size (handler program operation w) (s.execute text command) := by
  cases hserves with
  | load ho => exact load_refines h ho
  | store hc => exact store_refines h hc
  | add ho => exact arithmetic_refines h ho (fun _ _ => rfl) (hfits _ _ · rfl)
  | sub ho => exact arithmetic_refines h ho (fun _ _ => rfl) (hfits _ _ · rfl)
  | mul ho => exact arithmetic_refines h ho (fun _ _ => rfl) (hfits _ _ · rfl)
  | div ho => exact div_refines h ho (hfits _ _ · rfl)
  | read hc => exact read_refines h hc
  | write ho => exact write_refines h ho
  | jump ht => exact jump_refines h hs ht
  | jumpIfZero ht =>
    refine jumpIf_refines h hs ht ?_
    rw [beq_iff_eq, ← h.accumulator, ← Int64.toInt_inj]
    rfl
  | jumpIfPositive ht =>
    refine jumpIf_refines h hs ht ?_
    rw [decide_eq_true_iff, ← h.accumulator]
    exact Int64.lt_iff_toInt_lt
  | halt => exact halt_refines h hs

end

end RegisterMachine.Ram

import RegisterMachine.Proofs.RamCommands
import RegisterMachine.Proofs.Steps

namespace RegisterMachine

/-- A program that a 64-bit pointer can go through, as any that fits in memory is. -/
def Program.Addressable (program : Program) : Prop :=
  program.size < 0x8000000000000000

namespace Ram
open Textbook (State Command Line Undefined)

/-- What an operation means on the textbook machine, with its label. -/
def line? (operation : Operation) : Option Line :=
  (command? operation.toInstruction).map fun command => ⟨operation.label, command⟩

/-- A text is the meaning of a program, line by line. -/
def Spells (program : Program) (text : List Line) : Prop :=
  program.operations.toList.map line? = text.map some

theorem exists_spells {program : Program} (h : program.ShapedBy table) :
    ∃ text, Spells program text := by
  have hl : ∀ operation ∈ program.operations.toList, ∃ line, line? operation = some line := by
    intro operation hm
    obtain ⟨_, command, _, hc, _⟩ := serves_of_shaped h (Array.mem_toList_iff.mp hm)
    exact ⟨⟨operation.label, command⟩, by simp [line?, hc]⟩
  unfold Spells
  generalize program.operations.toList = operations at hl
  induction operations with
  | nil => exact ⟨[], rfl⟩
  | cons operation rest ih =>
    obtain ⟨line, hline⟩ := hl operation (by simp)
    obtain ⟨text, htext⟩ := ih fun o ho => hl o (by simp [ho])
    exact ⟨line :: text, by simp [hline, htext]⟩

section
variable {program : Program} {text : List Line}

theorem Spells.length (h : Spells program text) : text.length = program.size := by
  simpa [Program.size] using (congrArg List.length h).symm

theorem Spells.getElem? (h : Spells program text) {i : Nat} {operation : Operation}
    (ho : program.operations[i]? = some operation) :
    ∃ line, text[i]? = some line ∧ line? operation = some line := by
  have hi := congrArg (·[i]?) h
  simp only [List.getElem?_map, Array.getElem?_toList, ho, Option.map_some] at hi
  obtain ⟨line, hline, he⟩ := Option.map_eq_some_iff.mp hi.symm
  exact ⟨line, hline, he.symm⟩

theorem label_of_line? {operation : Operation} {line : Line} (h : line? operation = some line) :
    line.label = operation.label := by
  obtain ⟨command, _, rfl⟩ := Option.map_eq_some_iff.mp h
  rfl

theorem Spells.findLabel (h : Spells program text) (label : String) :
    text.findIdx? (fun line => line.label == some label) = program.findLabel label := by
  obtain ⟨⟨operations⟩⟩ := program
  unfold Spells at h
  rw [Program.findLabel, List.findIdx?_toArray]
  induction operations generalizing text with
  | nil =>
    obtain rfl : text = [] := by simpa using h.symm
    rfl
  | cons operation rest ih =>
    cases text with
    | nil => simp at h
    | cons line text =>
      simp only [List.map_cons, List.cons.injEq] at h
      simp only [List.findIdx?_cons, label_of_line? h.1, ih h.2]

end

/-- The registers, the accumulator and the input of both machines are the same. -/
structure Contents (w : Workspace) (s : State) : Prop where
  accumulator : w.memory.accumulator.toInt = s.accumulator
  registers : ∀ address : UInt64, (w.memory.get address).toInt = s.registers address.toNat
  tokens : w.tape.rest = s.tokens

/-- A pointer and a counter are on the same one of `n` operations, or both on none. -/
def Stands (n : Nat) (pointer : Int64) (counter : Nat) : Prop :=
  ∀ i < n, pointer.toInt = i ↔ counter = i

structure Agrees (session : Session) (s : State) : Prop
    extends Contents session.workspace s where
  place : Stands session.program.size session.memory.instructionPointer s.counter

/-- The state of the textbook machine that a session shows. -/
def stateOf (session : Session) : State where
  accumulator := session.memory.accumulator.toInt
  registers := fun number =>
    if number < 0x10000000000000000 then (session.memory.get (UInt64.ofNat number)).toInt else 0
  counter :=
    if session.memory.instructionPointer < 0 then session.program.size
    else session.memory.instructionPointer.toInt.toNat
  tokens := session.tape.rest

theorem agrees_stateOf (session : Session) : Agrees session (stateOf session) := by
  refine ⟨⟨rfl, ?_, rfl⟩, ?_⟩
  · intro address
    have hlt : address.toNat < 0x10000000000000000 := address.toNat_lt
    simp only [stateOf, hlt, if_true, UInt64.ofNat_toNat]
    rfl
  · intro i hi
    simp only [stateOf, Int64.lt_iff_toInt_lt, Int64.toInt_zero]
    split <;> omega

theorem stands_next {n counter : Nat} {pointer : Int64} (hn : n < 0x8000000000000000)
    (hp : pointer.toInt = counter) (hc : counter < n) :
    Stands n (Session.advancePointer pointer) (counter + 1) := by
  intro i _
  rw [Session.toInt_advancePointer (by omega), hp]
  omega

theorem stands_jump {n index : Nat} (hn : n < 0x8000000000000000) (hi : index < n) :
    Stands n (Session.advancePointer (Int64.ofInt (index - 1))) index := by
  have hp : (Int64.ofInt (index - 1)).toInt = index - 1 :=
    Int64.toInt_ofInt_of_le (by omega) (by omega)
  intro i _
  rw [Session.toInt_advancePointer (by omega), hp]
  omega

/-- Behind the last operation of the longest program the pointer no longer moves, which is as
good. -/
theorem stands_halt {n : Nat} (hn : n < 0x8000000000000000) :
    Stands n (Session.advancePointer (Int64.ofNat n)) n := by
  have hp : (Int64.ofNat n).toInt = n := Int64.toInt_ofNat_of_lt hn
  intro i hi
  by_cases hlast : (Int64.ofNat n) = Int64.maxValue
  · rw [Session.advancePointer, if_pos hlast, hp]
    omega
  · have hlt : (Int64.ofNat n).toInt < 0x7FFFFFFFFFFFFFFF := by
      have hle := (Int64.ofNat n).toInt_le
      have hne := mt Int64.toInt_inj.mp hlast
      simp only [Int64.toInt_maxValue] at hle hne
      omega
    rw [Session.toInt_advancePointer hlt, hp]
    omega

end Ram

end RegisterMachine

import RegisterMachine.Proofs.FailingSteps
import RegisterMachine.Proofs.FaultNotes
import RegisterMachine.Proofs.HandlerRefinement

namespace RegisterMachine.Ram
open Textbook (State Line Undefined)

section
variable {session : Session} {s : State} {text : List Line}

/-- Both machines find the same operation, or neither finds one. -/
theorem Agrees.next (h : Agrees session s) (hs : Spells session.program text) :
    (session.next? = none ∧ text[s.counter]? = none) ∨
      (∃ operation line, session.next? = some operation ∧ text[s.counter]? = some line ∧
        line? operation = some line ∧ s.counter < session.program.size ∧
        session.memory.instructionPointer.toInt = s.counter) := by
  have hp := h.place
  cases hn : session.next? with
  | none =>
    refine .inl ⟨rfl, List.getElem?_eq_none ?_⟩
    rw [hs.length]
    apply Nat.le_of_not_lt
    intro hlt
    have hpointer := (hp s.counter hlt).mpr rfl
    have hpos : ¬ session.memory.instructionPointer < 0 := by
      rw [Int64.lt_iff_toInt_lt, hpointer]
      exact Int.not_lt.mpr (Int.natCast_nonneg _)
    rw [Session.next?, Program.at?, if_neg hpos, hpointer, Int.toNat_natCast,
      Array.getElem?_eq_none_iff] at hn
    exact absurd hlt (Nat.not_lt.mpr hn)
  | some operation =>
    have hop := hn
    rw [Session.next?, Program.at?] at hop
    split at hop
    · cases hop
    · rename_i hpos
      obtain ⟨hlt, _⟩ := Array.getElem?_eq_some_iff.mp hop
      have hle : 0 ≤ session.memory.instructionPointer.toInt :=
        Int64.le_iff_toInt_le.mp (Int64.not_lt.mp hpos)
      have hpointer : session.memory.instructionPointer.toInt = s.counter := by
        have hcounter := (hp _ hlt).mp (Int.toNat_of_nonneg hle).symm
        omega
      rw [hpointer, Int.toNat_natCast] at hop hlt
      obtain ⟨line, hline, he⟩ := hs.getElem? hop
      exact .inr ⟨operation, line, rfl, hline, he, hlt, hpointer⟩

/-- One step of the session is one step of the textbook machine, and is missing exactly where
that one is. -/
theorem step_refines (hram : session.table = table) (hshaped : session.program.ShapedBy table)
    (hunlimited : session.settings.maxSteps = none) (haddr : session.program.Addressable)
    (hs : Spells session.program text) (h : Agrees session s) (hfits : s.Fits text) :
    (∃ line after t, session.step = (.ok line, after) ∧ s.step text = .ok (line, t) ∧
        Agrees after t) ∨
      (∃ fault reason, session.step = (.error fault, session) ∧ s.step text = .error reason ∧
        fault.kind = reason.kind) := by
  rcases h.next hs with ⟨hn, hline⟩ | ⟨operation, line, hn, hline, hmeans, hin, hpointer⟩
  · refine .inr ⟨session.outOfRange, .stopped, ?_, ?_, rfl⟩
    · simp only [Session.step, hn]
    · simp only [State.step, hline]
  · have hmem := Program.mem_of_at? hn
    obtain ⟨entry, command, hfind, hcommand, hserves⟩ := serves_of_shaped hshaped hmem
    have hlimit : session.spentLimit? = none := by
      simp [Session.spentLimit?, hunlimited]
    rw [line?, hcommand, Option.map_some, Option.some.injEq] at hmeans
    subst hmeans
    have hanswer : Answers session.program.size
        (entry.handler session.program operation session.workspace) (s.step text) := by
      rw [State.step, hline]
      refine hserves.refines ⟨h.toContents, haddr, hpointer, hin⟩ hs ?_
      rintro operator operand n rfl hr
      apply hfits n
      simp [State.nextResult?, hline, hr, Except.toOption]
    have hstep := Session.step_of_find hn hlimit (hram ▸ hfind)
    cases hr : entry.handler session.program operation session.workspace with
    | ok emitted w =>
      rw [hr] at hanswer hstep
      cases ht : s.step text with
      | error reason => rw [ht] at hanswer; exact hanswer.elim
      | ok result =>
        obtain ⟨line', t⟩ := result
        rw [ht] at hanswer
        obtain ⟨rfl, hcontents, hplace⟩ := hanswer
        refine .inl ⟨emitted, session.advance w, t, hstep, rfl, ⟨?_, hplace⟩⟩
        exact ⟨hcontents.accumulator, hcontents.registers, hcontents.tokens⟩
    | error fault w =>
      rw [hr] at hanswer hstep
      cases ht : s.step text with
      | ok result => rw [ht] at hanswer; exact hanswer.elim
      | error reason =>
        rw [ht] at hanswer
        have hsame := Session.step_atomic (hram ▸ OpcodeTable.handledByRam_ram) hstep
        refine .inr ⟨fault.atOperation operation, reason, ?_, rfl, ?_⟩
        · exact hstep.trans (congrArg (Prod.mk _) hsame)
        · rw [Fault.kind_atOperation]
          exact hanswer

/-- As long as results fit, both machines go through the same states and emit the same lines. -/
theorem stepMany_refines (hram : session.table = table)
    (hshaped : session.program.ShapedBy table) (hunlimited : session.settings.maxSteps = none)
    (haddr : session.program.Addressable) (hs : Spells session.program text)
    (h : Agrees session s) {k : Nat} (hfits : ∀ i < k, (s.stepMany text i).2.Fits text) :
    (session.stepMany k).1.map (·.mapError Fault.kind) =
        (s.stepMany text k).1.map (·.mapError Undefined.kind) ∧
      Agrees (session.stepMany k).2 (s.stepMany text k).2 := by
  induction k generalizing session s with
  | zero => exact ⟨rfl, h⟩
  | succ k ih =>
    rcases step_refines hram hshaped hunlimited haddr hs h (hfits 0 (Nat.succ_pos k)) with
      ⟨line, after, t, hstep, hideal, hafter⟩ | ⟨fault, reason, hstep, hideal, hkind⟩
    · have hk := Session.step_kept hstep
      have hrest : ∀ i < k, (t.stepMany text i).2.Fits text := by
        intro i hi
        have hnext := hfits (i + 1) (Nat.succ_lt_succ hi)
        simpa only [State.stepMany, hideal] using hnext
      obtain ⟨hresults, hlast⟩ := ih (hk.table.trans hram) (hk.program ▸ hshaped)
        (hk.settings ▸ hunlimited) (hk.program ▸ haddr) (hk.program ▸ hs) hafter hrest
      simp only [Session.stepMany, hstep, State.stepMany, hideal, List.map_cons]
      exact ⟨congrArg _ hresults, hlast⟩
    · simp only [Session.stepMany, hstep, State.stepMany, hideal, List.map_cons, List.map_nil]
      refine ⟨?_, h⟩
      change [Except.error fault.kind] = [Except.error reason.kind]
      rw [hkind]

end

/-- The random access machine refines the textbook machine over unbounded integers. A loaded
program has a meaning there, and as long as no result of an operation on the accumulator leaves
the 64-bit integers, any number of steps gives the same lines, is cut short by the same undefined
step, and ends in the same state. -/
theorem execution_refines_textbook (session : Session) (marker : Char) (lines : List String)
    (hram : session.table = table)
    (hloaded : session.program = (Source.parseProgram table marker lines).1)
    (hunlimited : session.settings.maxSteps = none) (haddr : session.program.Addressable) :
    (∃ text, Spells session.program text) ∧
    ∀ text, Spells session.program text → ∀ k,
      (∀ i < k, ((stateOf session).stepMany text i).2.Fits text) →
      (session.stepMany k).1.map (·.mapError Fault.kind) =
          ((stateOf session).stepMany text k).1.map (·.mapError Undefined.kind) ∧
        Agrees (session.stepMany k).2 ((stateOf session).stepMany text k).2 := by
  have hshaped : session.program.ShapedBy table :=
    hloaded ▸ Source.parseProgram_shaped table marker lines
  refine ⟨exists_spells hshaped, ?_⟩
  intro text hs k hfits
  exact stepMany_refines hram hshaped hunlimited haddr hs (agrees_stateOf session) hfits

/-- Reads a number, leaves its half in the register of that number, and jumps nowhere. -/
def halving : Session where
  machine := "RAM"
  settings := {}
  table := table
  workspace := { tape := .ofList ["7"] }
  program := (Source.parseProgram table '#'
    ["READ 1", "LOAD 1", "DIV =-2", "STORE *1", "WRITE 7", "JUMP out"]).1

def halvingText : List Line :=
  [⟨none, .read (.numbered 1)⟩, ⟨none, .load (.content (.numbered 1))⟩,
    ⟨none, .compute .divide (.constant (-2))⟩, ⟨none, .store (.through 1)⟩,
    ⟨none, .write (.content (.numbered 7))⟩, ⟨none, .jump "out"⟩]

theorem spells_halving : Spells halving.program halvingText := by
  unfold Spells
  decide +kernel

theorem halving_addressable : halving.program.Addressable := by
  unfold Program.Addressable
  decide +kernel

theorem fits_halving :
    ∀ i < 6, ((stateOf halving).stepMany halvingText i).2.Fits halvingText := by
  decide +kernel

theorem execution_refines_textbook_halving :
    (halving.stepMany 6).1.map (·.mapError Fault.kind) =
      [.ok none, .ok none, .ok none, .ok none, .ok (some "-3"), .error .labelNotFound] := by
  have h := execution_refines_textbook halving '#' _ rfl rfl rfl halving_addressable
  rw [(h.2 halvingText spells_halving 6 fits_halving).1]
  rfl
end RegisterMachine.Ram

import RegisterMachine.Proofs.Requests
import RegisterMachine.Proofs.Runs

namespace RegisterMachine

namespace Session

theorem create_ok {machine : Machine} {settings : Settings} {s : Session}
    (h : Session.create machine settings = .ok s) :
    ∃ table, machine.table = .ok table ∧
      s = { machine := machine.name, settings := settings, table := table,
            workspace := { memory := { named := machine.named } } } := by
  unfold create at h
  cases htable : machine.table with
  | error fault => rw [htable] at h; cases h
  | ok table =>
    rw [htable] at h
    cases h
    exact ⟨table, rfl, rfl⟩

/-- The sessions that requests lead to from a new one. -/
inductive Reachable (machine : Machine) (settings : Settings) : Session → Prop
  | create {s : Session} (new : Session.create machine settings = .ok s) :
      Reachable machine settings s
  | obey {s : Session} (request : Request) (before : Reachable machine settings s) :
      Reachable machine settings (s.obey request)

/-- A property of sessions that no request breaks. Of a run only the steps count, and that it
changes the lifecycle state and the stop flag. -/
structure Lasting (P : Session → Prop) : Prop where
  load : ∀ {s} lines, P s → P (s.load lines).1
  setTape : ∀ {s} tape, P s → P (s.setTape tape)
  setMemory : ∀ {s} memory, P s → P (s.setMemory memory)
  step : ∀ {s r t}, s.step = (r, t) → P s → P t
  phase : ∀ {s} state flag, P s → P (s.phase state flag)
  reset : ∀ {s}, P s → P s.reset

namespace Lasting

variable {P : Session → Prop} {s t : Session} {inputs : List String} {signals : Nat → Signal}
  {limit : Nat}

theorem steps (h : Lasting P) {k : Nat} {lines : List String} (hs : Steps s k lines t)
    (hp : P s) : P t := by
  induction hs with
  | refl s => exact hp
  | cons head _ ih => exact ih (h.step head hp)

theorem run (h : Lasting P) {outcome : Outcome}
    (hrun : s.run inputs signals limit = (outcome, t) ∨
      s.runPaced inputs signals limit = (outcome, t)) (hp : P s) : P t := by
  obtain ⟨k, lines, last, hs, hstand⟩ := run_standing hrun
  have hlast : P last := h.steps hs (h.phase .running false (h.setTape (.ofList inputs) hp))
  cases hstand with
  | ended atEnd => exact h.phase .halted false hlast
  | stopped => exact h.phase .interrupted false hlast
  | abandoned => exact h.phase .interrupted false hlast
  | failed next step flag => exact h.phase .halted flag (h.step step hlast)
  | unfinished next => exact hlast

theorem obey (h : Lasting P) (request : Request) (hp : P s) : P (s.obey request) := by
  cases request with
  | load lines => exact h.load lines hp
  | setInputs inputs => exact h.setTape (.ofList inputs) hp
  | step => exact h.step rfl hp
  | run inputs signals limit => exact h.run (.inl rfl) hp
  | runPaced inputs signals limit => exact h.run (.inr rfl) hp
  | requestStop =>
    change P s.requestStop
    unfold requestStop
    split
    · exact h.phase s.state true hp
    · exact hp
  | reset => exact h.reset hp
  | write change => exact h.setMemory (s.memory.written change).1 hp
  | edit change => exact h.setMemory (change s.memory) hp

theorem obeyAll (h : Lasting P) (hp : P s) (requests : List Request) : P (s.obeyAll requests) := by
  induction requests generalizing s with
  | nil => exact hp
  | cons request requests ih => exact ih (h.obey request hp)

theorem reachable (h : Lasting P) {machine : Machine} {settings : Settings}
    (hnew : ∀ s, Session.create machine settings = .ok s → P s)
    (hs : Reachable machine settings s) : P s := by
  induction hs with
  | create new => exact hnew _ new
  | obey request _ ih => exact h.obey request ih

end Lasting

end Session

end RegisterMachine

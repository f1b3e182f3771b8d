import RegisterMachine.Proofs.Dispatching
import RegisterMachine.Ram.Effects

namespace RegisterMachine

/-- A handler leaves the names of the memory alone, whether it succeeds or fails. A memory offers
nothing to change them by, but a handler could put another memory in its place. -/
def Handler.KeepsNames (handler : Handler) : Prop :=
  ∀ program operation w,
    match handler program operation w with
    | .ok _ after | .error _ after => after.memory.named = w.memory.named

/-- The names describe the machine, so that what it executes leaves them alone. -/
def Machine.KeepsNames (machine : Machine) : Prop :=
  ∀ entry ∈ machine.entries, Handler.KeepsNames entry.handler

/-- Only an edit can change the names: by putting another memory in the place of the old one. -/
def Request.KeepsNames : Request → Prop
  | .edit change => ∀ memory, (change memory).named = memory.named
  | _ => True

namespace Session

section
variable {s t : Session}

theorem step_names (h : Handler.KeepsNames s.table.dispatch) {r : Except Fault (Option String)}
    (hstep : s.step = (r, t)) : t.memory.named = s.memory.named := by
  cases r with
  | ok line =>
    obtain ⟨operation, w, _, _, hd, rfl⟩ := step_ok hstep
    have hkeeps := h s.program operation s.workspace
    rw [hd] at hkeeps
    exact hkeeps
  | error fault =>
    rcases step_error hstep with ⟨_, _, rfl⟩ | ⟨_, _, _, _, _, rfl⟩ | ⟨operation, w, _, _, hd, rfl⟩
    · rfl
    · rfl
    · have hkeeps := h s.program operation s.workspace
      rw [hd] at hkeeps
      exact hkeeps

theorem Steps.names (h : Handler.KeepsNames s.table.dispatch) {k : Nat} {lines : List String}
    (hs : Steps s k lines t) : t.memory.named = s.memory.named := by
  induction hs with
  | refl s => rfl
  | cons head _ ih => exact (ih ((step_kept head).table ▸ h)).trans (step_names h head)

end

def paced : Session := ofRam { stepDelay := 5 }

end Session

namespace Session

end Session

end RegisterMachine

import RegisterMachine.Proofs.Runs

namespace RegisterMachine

/-- Whether a run came to its end; an unfinished one was only out of fuel. -/
def Outcome.settled : Outcome → Bool
  | .finished _ | .failed _ | .abandoned => true
  | .unfinished _ => false

/-- What a run comes to whose first part emitted the given lines. -/
def Outcome.behind (lines : List String) : Outcome → Outcome
  | .finished rest => .finished (lines ++ rest)
  | .unfinished rest => .unfinished (lines ++ rest)
  | .failed fault => .failed fault
  | .abandoned => .abandoned

namespace Session

/-- What steps come to that are taken while there is a next operation: behind `k` steps that
succeed the program is at its end, or a step fails. -/
inductive Ending (s : Session) (k : Nat) : Outcome → Session → Prop
  | finished {lines : List String} {t : Session} (steps : Steps s k lines t)
      (atEnd : t.hasNext = false) : Ending s k (.finished lines) t
  | failed {lines : List String} {fault : Fault} {t u : Session} (steps : Steps s k lines t)
      (next : t.hasNext = true) (step : t.step = (.error fault, u)) :
      Ending s k (.failed fault) u

/-- Any number of steps can be taken. -/
def Endless (s : Session) : Prop :=
  ∀ k, ∃ lines t, Steps s k lines t

/-- Of a run that is given for each limit: it does not end under any. -/
def Diverges (run : Nat → Outcome × Session) : Prop :=
  ∀ limit, (run limit).1.settled = false

/-- Of a run that is given for each limit: it ends like this under all that are large enough. -/
def EndsWith (run : Nat → Outcome × Session) (outcome : Outcome) (after : Session) : Prop :=
  outcome.settled = true ∧ ∃ n, ∀ limit, n ≤ limit → run limit = (outcome, after)

section
variable {s t u : Session} {j k : Nat} {first lines : List String} {outcome : Outcome}

theorem Ending.phase (h : Ending s k outcome t) (state : Lifecycle) (flag : Bool) :
    Ending (s.phase state flag) k outcome (t.phase state flag) := by
  cases h with
  | finished steps atEnd => exact .finished (steps.phase state flag) atEnd
  | failed steps next step =>
    refine .failed (steps.phase state flag) next ?_
    rw [step_phase, step]

theorem Ending.prepend (h : Steps s j first t) (h' : Ending t k outcome u) :
    Ending s (j + k) (outcome.behind first) u := by
  cases h' with
  | finished steps atEnd => exact .finished (h.trans steps) atEnd
  | failed steps next step => exact .failed (h.trans steps) next step

theorem Endless.phase (h : Endless s) (state : Lifecycle) (flag : Bool) :
    Endless (s.phase state flag) := by
  intro k
  obtain ⟨lines, t, hs⟩ := h k
  exact ⟨lines, t.phase state flag, hs.phase state flag⟩

theorem Endless.prepend (h : Steps s j first t) (h' : Endless t) : Endless s := by
  intro k
  obtain ⟨lines, u, hu⟩ := h' k
  exact (h.trans hu).shorter (Nat.le_add_left k j)

/-- Steps that can be taken for ever stop nowhere. -/
theorem Endless.hasNext (h : Endless s) (hs : Steps s k lines t) : t.hasNext = true := by
  obtain ⟨all, u, hall⟩ := h (k + 1)
  obtain ⟨lines', rest, t', hs', hrest, _⟩ := hall.split
  obtain ⟨_, rfl⟩ := hs.unique hs'
  exact hrest.hasNext

/-- Steps come to an end or go on for ever. -/
theorem ending_or_endless (s : Session) : (∃ k outcome t, Ending s k outcome t) ∨ Endless s := by
  have hreach : ∀ k, (∃ lines t, Steps s k lines t) ∨ ∃ j outcome t, Ending s j outcome t := by
    intro k
    induction k with
    | zero => exact .inl ⟨[], s, .refl s⟩
    | succ k ih =>
      rcases ih with ⟨lines, t, hs⟩ | hend
      · cases hn : t.hasNext with
        | false => exact .inr ⟨k, _, t, .finished hs hn⟩
        | true =>
          obtain ⟨r, u, hstep⟩ : ∃ r u, t.step = (r, u) := ⟨_, _, rfl⟩
          cases r with
          | ok line => exact .inl ⟨_, u, hs.snoc hstep⟩
          | error fault => exact .inr ⟨k, _, u, .failed hs hn hstep⟩
      · exact .inr hend
  by_cases hend : ∃ k outcome t, Ending s k outcome t
  · exact .inl hend
  · exact .inr fun k => (hreach k).resolve_right hend

/-- Steps stop where there is no next operation or where one fails, and nowhere else. -/
theorem Ending.le (h : Ending s k outcome t) (h' : Steps s j lines u) : j ≤ k := by
  rcases Nat.lt_or_ge k j with hlt | hle
  · exfalso
    obtain ⟨n, rfl⟩ := Nat.exists_eq_add_of_lt hlt
    rw [Nat.add_assoc] at h'
    obtain ⟨_, _, mid, hmid, hrest, _⟩ := h'.split
    cases h with
    | finished steps atEnd =>
      obtain ⟨_, rfl⟩ := steps.unique hmid
      rw [hrest.hasNext] at atEnd
      cases atEnd
    | failed steps next step =>
      obtain ⟨_, rfl⟩ := steps.unique hmid
      cases hrest with
      | cons head _ => rw [step] at head; cases head
  · exact hle

theorem Ending.unique {outcome' : Outcome} (h : Ending s k outcome t)
    (h' : Ending s j outcome' u) : k = j ∧ outcome = outcome' ∧ t = u := by
  have hkj : k ≤ j := by
    cases h with
    | finished steps _ => exact h'.le steps
    | failed steps _ _ => exact h'.le steps
  have hjk : j ≤ k := by
    cases h' with
    | finished steps _ => exact h.le steps
    | failed steps _ _ => exact h.le steps
  obtain rfl := Nat.le_antisymm hkj hjk
  refine ⟨rfl, ?_⟩
  cases h with
  | finished steps atEnd =>
    cases h' with
    | finished steps' _ =>
      obtain ⟨rfl, rfl⟩ := steps.unique steps'
      exact ⟨rfl, rfl⟩
    | failed steps' next _ =>
      obtain ⟨_, rfl⟩ := steps.unique steps'
      rw [atEnd] at next
      cases next
  | failed steps next step =>
    cases h' with
    | finished steps' atEnd =>
      obtain ⟨_, rfl⟩ := steps.unique steps'
      rw [atEnd] at next
      cases next
    | failed steps' _ step' =>
      obtain ⟨_, rfl⟩ := steps.unique steps'
      rw [step] at step'
      cases step'
      exact ⟨rfl, rfl⟩

end

section
variable {s t : Session} {k limit : Nat} {outcome : Outcome} {inputs : List String}

theorem Ending.settled (h : Ending s k outcome t) : outcome.settled = true := by
  cases h <;> rfl

/-- A run that nothing disturbs takes the steps that can be taken. -/
theorem proceed_undisturbed_steps {pauses : Bool} {lines : List String} (hu : Underway s)
    (h : Steps s k lines t) (fuel : Nat) :
    proceed pauses undisturbed (k + fuel) 0 [] s =
      proceed pauses undisturbed fuel k lines.reverse t := by
  have hsteps : proceed pauses undisturbed (k + fuel) 0 [] s =
      proceed pauses undisturbed fuel (0 + k) (lines.reverse ++ []) t :=
    proceed_steps hu h fun _ _ _ => rfl
  simpa using hsteps

/-- A run that nothing disturbs comes to what single steps come to. Its last step, be it one that
fails, needs fuel too. -/
theorem Ending.proceed (h : Ending s k outcome t) (hu : Underway s) (pauses : Bool)
    (hk : k < limit) :
    proceed pauses undisturbed limit 0 [] s = (outcome, t.phase .halted false) := by
  obtain ⟨fuel, rfl⟩ := Nat.exists_eq_add_of_lt hk
  rw [Nat.add_assoc]
  cases h with
  | finished steps atEnd =>
    rw [proceed_undisturbed_steps hu steps, proceed_end atEnd, List.reverse_reverse,
      finish_eq_phase (hu.kept steps.kept)]
  | failed steps next step =>
    rw [proceed_undisturbed_steps hu steps, proceed_fail (hu.kept steps.kept) next step]
    rfl

theorem Endless.proceed (h : Endless s) (hu : Underway s) (pauses : Bool) (limit : Nat) :
    (proceed pauses undisturbed limit 0 [] s).1.settled = false := by
  obtain ⟨lines, t, hs⟩ := h limit
  rw [← Nat.add_zero limit, proceed_undisturbed_steps hu hs, proceed_spent (h.hasNext hs)]
  rfl

theorem Ending.run (h : Ending (s.setInputs inputs) k outcome t) :
    EndsWith (s.run inputs undisturbed ·) outcome (t.phase .halted false) :=
  ⟨h.settled, k + 1, fun _ hk =>
    (h.phase .running false).proceed (underway_start s inputs) false hk⟩

theorem Ending.runPaced (h : Ending (s.setInputs inputs) k outcome t) :
    EndsWith (s.runPaced inputs undisturbed ·) outcome (t.phase .halted false) :=
  ⟨h.settled, k + 1, fun _ hk =>
    (h.phase .running false).proceed (underway_start s inputs) _ hk⟩

/-- A run that nothing disturbs, paced or not, ends behind exactly `k` steps that succeed. -/
structure RunEnds (s : Session) (inputs : List String) (k : Nat) (outcome : Outcome)
    (after : Session) : Prop where
  steps : ∃ last, Ending (s.setInputs inputs) k outcome last ∧ after = last.phase .halted false
  run : EndsWith (s.run inputs undisturbed ·) outcome after
  paced : EndsWith (s.runPaced inputs undisturbed ·) outcome after

theorem Ending.runEnds (h : Ending (s.setInputs inputs) k outcome t) :
    RunEnds s inputs k outcome (t.phase .halted false) :=
  ⟨⟨t, h, rfl⟩, h.run, h.runPaced⟩

theorem Endless.run (h : Endless (s.setInputs inputs)) : Diverges (s.run inputs undisturbed ·) :=
  (h.phase .running false).proceed (underway_start s inputs) false

theorem Endless.runPaced (h : Endless (s.setInputs inputs)) :
    Diverges (s.runPaced inputs undisturbed ·) :=
  (h.phase .running false).proceed (underway_start s inputs) _

end

end Session

end RegisterMachine

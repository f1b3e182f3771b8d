import RegisterMachine.Session.Step

namespace RegisterMachine.Session

/-- All that the steps of a session leave alone is the same in both. -/
structure Kept (s t : Session) : Prop where
  machine : t.machine = s.machine
  settings : t.settings = s.settings
  table : t.table = s.table
  program : t.program = s.program
  state : t.state = s.state
  stopRequested : t.stopRequested = s.stopRequested

theorem Kept.refl (s : Session) : Kept s s :=
  ⟨rfl, rfl, rfl, rfl, rfl, rfl⟩

theorem Kept.trans {s t u : Session} (h : Kept s t) (h' : Kept t u) : Kept s u :=
  ⟨h'.machine.trans h.machine, h'.settings.trans h.settings, h'.table.trans h.table,
    h'.program.trans h.program, h'.state.trans h.state,
    h'.stopRequested.trans h.stopRequested⟩

/-- A session with another lifecycle state and another stop flag. -/
def phase (s : Session) (state : Lifecycle) (flag : Bool) : Session :=
  { s with state := state, stopRequested := flag }

/-- Short of the last pointer, moving on is exact. -/
theorem toInt_advancePointer {pointer : Int64} (h : pointer.toInt < 0x7FFFFFFFFFFFFFFF) :
    (advancePointer pointer).toInt = pointer.toInt + 1 := by
  have hne : pointer ≠ Int64.maxValue := by
    rintro rfl
    exact absurd h (by decide)
  have hone : (1 : Int64).toInt = 1 := rfl
  have hl := pointer.le_toInt
  rw [advancePointer, if_neg hne, Int64.toInt_add, hone]
  exact Int.bmod_eq_of_le (by omega) (by omega)

/-- A successful step executes the operation at the pointer within the limit. -/
theorem step_ok {s t : Session} {line : Option String} (h : s.step = (.ok line, t)) :
    ∃ operation w, s.next? = some operation ∧ s.spentLimit? = none ∧
      s.table.dispatch s.program operation s.workspace = .ok line w ∧ t = s.advance w := by
  unfold step at h
  split at h
  · simp at h
  · rename_i operation hn
    split at h
    · simp at h
    · rename_i hl
      split at h
      · rename_i line' w hd
        simp only [Prod.mk.injEq, Except.ok.injEq] at h
        obtain ⟨rfl, rfl⟩ := h
        exact ⟨operation, w, hn, hl, hd, rfl⟩
      · simp at h

/-- A step fails off the program, beyond the limit, or in its operation. -/
theorem step_error {s t : Session} {fault : Fault} (h : s.step = (.error fault, t)) :
    (s.next? = none ∧ fault = s.outOfRange ∧ t = s) ∨
    (∃ operation limit, s.next? = some operation ∧ s.spentLimit? = some limit ∧
      fault = limitFault limit operation ∧ t = s) ∨
    (∃ operation w, s.next? = some operation ∧ s.spentLimit? = none ∧
      s.table.dispatch s.program operation s.workspace = .error fault w ∧
      t = { s with workspace := w }) := by
  unfold step at h
  split at h
  · rename_i hn
    simp only [Prod.mk.injEq, Except.error.injEq] at h
    exact .inl ⟨hn, h.1.symm, h.2.symm⟩
  · rename_i operation hn
    split at h
    · rename_i limit hl
      simp only [Prod.mk.injEq, Except.error.injEq] at h
      exact .inr (.inl ⟨operation, limit, hn, hl, h.1.symm, h.2.symm⟩)
    · rename_i hl
      split at h
      · simp at h
      · rename_i fault' w hd
        simp only [Prod.mk.injEq, Except.error.injEq] at h
        obtain ⟨rfl, rfl⟩ := h
        exact .inr (.inr ⟨operation, w, hn, hl, hd, rfl⟩)

theorem step_of_find {s : Session} {operation : Operation} {entry : Entry}
    (hn : s.next? = some operation) (hl : s.spentLimit? = none)
    (hf : s.table.find? operation.opcode = some entry) :
    s.step = match entry.handler s.program operation s.workspace with
      | .ok line w => (.ok line, s.advance w)
      | .error fault w => (.error (fault.atOperation operation), { s with workspace := w }) := by
  simp only [step, hn, hl, OpcodeTable.dispatch_apply s.table s.program operation hf]
  cases entry.handler s.program operation s.workspace with
  | ok line w => rfl
  | error fault w => rfl

theorem hasNext_of_step_ok {s t : Session} {line : Option String} (h : s.step = (.ok line, t)) :
    s.hasNext = true := by
  obtain ⟨operation, _, hn, _⟩ := step_ok h
  simp [hasNext, hn]

theorem step_kept {s t : Session} {r : Except Fault (Option String)} (h : s.step = (r, t)) :
    Kept s t := by
  cases r with
  | ok line =>
    obtain ⟨_, w, _, _, _, rfl⟩ := step_ok h
    exact ⟨rfl, rfl, rfl, rfl, rfl, rfl⟩
  | error fault =>
    rcases step_error h with ⟨_, _, rfl⟩ | ⟨_, _, _, _, _, rfl⟩ | ⟨_, w, _, _, _, rfl⟩
    · exact Kept.refl _
    · exact Kept.refl _
    · exact ⟨rfl, rfl, rfl, rfl, rfl, rfl⟩

/-- A step looks neither at the lifecycle state nor at the stop flag. -/
theorem step_phase (s : Session) (state : Lifecycle) (flag : Bool) :
    (s.phase state flag).step = (s.step.1, s.step.2.phase state flag) := by
  have hn : (s.phase state flag).next? = s.next? := rfl
  have hl : (s.phase state flag).spentLimit? = s.spentLimit? := rfl
  unfold step
  rw [hn]
  cases s.next? with
  | none => rfl
  | some operation =>
    simp only [hl]
    cases s.spentLimit? with
    | some limit => rfl
    | none =>
      have hd : (s.phase state flag).table.dispatch (s.phase state flag).program operation
          (s.phase state flag).workspace =
          s.table.dispatch s.program operation s.workspace := rfl
      simp only [hd]
      cases s.table.dispatch s.program operation s.workspace with
      | ok line w => rfl
      | error fault w => rfl

/-- A number of steps that all succeed, with the lines that they emit in order. -/
inductive Steps : Session → Nat → List String → Session → Prop
  | refl (s : Session) : Steps s 0 [] s
  | cons {s t u : Session} {line : Option String} {k : Nat} {lines : List String}
      (head : s.step = (.ok line, t)) (tail : Steps t k lines u) :
      Steps s (k + 1) (line.toList ++ lines) u

namespace Steps

theorem kept {s t : Session} {k : Nat} {lines : List String} (h : Steps s k lines t) :
    Kept s t := by
  induction h with
  | refl s => exact Kept.refl s
  | cons head _ ih => exact (step_kept head).trans ih

/-- Steps are determined by where they start and how many they are. -/
theorem unique {s t u : Session} {k : Nat} {lines lines' : List String}
    (h : Steps s k lines t) (h' : Steps s k lines' u) : lines = lines' ∧ t = u := by
  induction h generalizing lines' u with
  | refl s => cases h'; exact ⟨rfl, rfl⟩
  | cons head _ ih =>
    cases h' with
    | cons head' tail' =>
      rw [head] at head'
      cases head'
      obtain ⟨rfl, rfl⟩ := ih tail'
      exact ⟨rfl, rfl⟩

theorem trans {s t u : Session} {j k : Nat} {first second : List String}
    (h : Steps s j first t) (h' : Steps t k second u) : Steps s (j + k) (first ++ second) u := by
  induction h with
  | refl s => simpa using h'
  | @cons s m t line j lines head _ ih =>
    rw [Nat.add_right_comm, List.append_assoc]
    exact .cons head (ih h')

/-- Steps can be parted behind any of them. -/
theorem split {s u : Session} {j k : Nat} {lines : List String} (h : Steps s (j + k) lines u) :
    ∃ first second t, Steps s j first t ∧ Steps t k second u ∧ lines = first ++ second := by
  induction j generalizing s lines with
  | zero => exact ⟨[], lines, s, .refl s, by simpa using h, rfl⟩
  | succ j ih =>
    rw [Nat.add_right_comm] at h
    cases h with
    | @cons _ m _ line _ rest head tail =>
      obtain ⟨first, second, t, hfirst, hsecond, rfl⟩ := ih tail
      exact ⟨line.toList ++ first, second, t, .cons head hfirst, hsecond, by simp⟩

theorem snoc {s t u : Session} {k : Nat} {lines : List String} {line : Option String}
    (h : Steps s k lines t) (h' : t.step = (.ok line, u)) :
    Steps s (k + 1) (lines ++ line.toList) u := by
  simpa using h.trans (.cons h' (.refl u))

theorem hasNext {s t : Session} {k : Nat} {lines : List String} (h : Steps s (k + 1) lines t) :
    s.hasNext = true := by
  cases h with
  | cons head _ => exact hasNext_of_step_ok head

theorem shorter {s t : Session} {k : Nat} {lines : List String} (h : Steps s k lines t)
    {j : Nat} (hj : j ≤ k) : ∃ first u, Steps s j first u := by
  rw [← Nat.add_sub_of_le hj] at h
  obtain ⟨first, _, u, hu, _⟩ := h.split
  exact ⟨first, u, hu⟩

theorem phase {s t : Session} {k : Nat} {lines : List String} (h : Steps s k lines t)
    (state : Lifecycle) (flag : Bool) :
    Steps (s.phase state flag) k lines (t.phase state flag) := by
  induction h with
  | refl s => exact .refl _
  | cons head _ ih =>
    refine .cons ?_ ih
    rw [step_phase, head]

theorem last {s t : Session} {k : Nat} {lines : List String} (h : Steps s (k + 1) lines t) :
    ∃ first line u, Steps s k first u ∧ u.step = (.ok line, t) ∧
      lines = first ++ line.toList := by
  obtain ⟨first, second, u, hu, hlast, rfl⟩ := h.split
  cases hlast with
  | cons head tail =>
    cases tail
    exact ⟨first, _, u, hu, head, by simp⟩

end Steps

/-- Single steps on request are steps that succeed, as long as none of them fails. -/
theorem steps_iff_stepMany {s t : Session} {k : Nat} {lines : List String} :
    Steps s k lines t ↔ ∃ emitted : List (Option String), emitted.length = k ∧
      lines = emitted.flatMap Option.toList ∧ s.stepMany k = (emitted.map .ok, t) := by
  constructor
  · intro h
    induction h with
    | refl s => exact ⟨[], rfl, rfl, rfl⟩
    | @cons s t u line k lines head tail ih =>
      obtain ⟨emitted, hk, hl, hm⟩ := ih
      exact ⟨line :: emitted, by simp [hk], by simp [hl], by simp [stepMany, head, hm]⟩
  · rintro ⟨emitted, hk, hl, hm⟩
    induction emitted generalizing s k lines with
    | nil =>
      subst hk hl
      cases hm
      exact .refl _
    | cons line emitted ih =>
      subst hk hl
      obtain ⟨r, mid, hstep⟩ : ∃ r mid, s.step = (r, mid) := ⟨_, _, rfl⟩
      cases r with
      | error fault => simp [stepMany, hstep] at hm
      | ok line' =>
        simp only [List.length_cons, stepMany, hstep, List.map_cons, Prod.mk.injEq,
          List.cons.injEq, Except.ok.injEq] at hm
        obtain ⟨⟨rfl, hrest⟩, hlast⟩ := hm
        exact .cons hstep (ih rfl rfl (Prod.ext hrest hlast))

end RegisterMachine.Session

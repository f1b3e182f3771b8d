import RegisterMachine.Proofs.Runs

namespace RegisterMachine.Session

/-- The signals of a schedule that says at which steps the stop flag is raised. -/
def stops (raised : Nat → Bool) : Nat → Signal := fun i =>
  if raised i then .stop else .quiet

/-- The signals of a schedule for a run that is abandoned in the pause behind a step. -/
def abandonedAt (k : Nat) (raised : Nat → Bool) : Nat → Signal := fun i =>
  if i = k then .abandon else stops raised i

/-- A schedule cuts a run behind its first step at which the flag is raised. The step has to
succeed, but the program may end with it. -/
structure Cut (raised : Nat → Bool) (s : Session) (k : Nat) (lines : List String)
    (last : Session) : Prop where
  positive : 0 < k
  up : raised k = true
  first : ∀ i, 0 < i → i < k → raised i = false
  steps : Steps s k lines last

theorem ends_stops (pauses : Bool) (raised : Nat → Bool) (i : Nat) :
    (stops raised i).ends pauses = raised i := by
  cases h : raised i <;> simp [stops, h, Signal.ends]

theorem Cut.phase {raised : Nat → Bool} {s last : Session} {k : Nat} {lines : List String}
    (h : Cut raised s k lines last) (state : Lifecycle) (flag : Bool) :
    Cut raised (s.phase state flag) k lines (last.phase state flag) :=
  ⟨h.positive, h.up, h.first, h.steps.phase state flag⟩

theorem down_of_not_cut {raised : Nat → Bool} {s : Session}
    (hc : ∀ k lines last, ¬ Cut raised s k lines last) {k : Nat} {lines : List String}
    {last : Session} (h : Steps s (k + 1) lines last) : raised (k + 1) = false := by
  induction k using Nat.strongRecOn generalizing lines last with
  | ind k ih =>
    cases hr : raised (k + 1) with
    | false => rfl
    | true =>
      refine absurd ⟨Nat.succ_pos k, hr, ?_, h⟩ (hc (k + 1) lines last)
      intro i hi hk
      obtain ⟨j, rfl⟩ := Nat.exists_eq_add_one_of_ne_zero (Nat.ne_of_gt hi)
      obtain ⟨first, u, hu⟩ := h.shorter (Nat.le_of_lt hk)
      exact ih j (Nat.lt_of_succ_lt_succ hk) hu

section
variable {pauses : Bool} {signals : Nat → Signal} {fuel taken : Nat} {emitted : List String}
  {s : Session}

/-- Signals that end no step which succeeds leave a run as it is; only the flag may stay up
behind a step that fails. -/
theorem proceed_undisturbed (hu : Underway s)
    (hq : ∀ k lines t, Steps s (k + 1) lines t →
      (signals (taken + (k + 1))).ends pauses = false) :
    (proceed pauses signals fuel taken emitted s).1 =
        (proceed pauses undisturbed fuel taken emitted s).1 ∧
      { (proceed pauses signals fuel taken emitted s).2 with stopRequested := false } =
        (proceed pauses undisturbed fuel taken emitted s).2 := by
  induction fuel, taken, emitted, s, hu using proceed_induction pauses signals with
  | atEnd fuel taken emitted s hu hn =>
    simp only [proceed_end hn, finish_eq_phase hu, true_and]
    rfl
  | spent taken emitted s hu hn =>
    simp only [proceed_spent hn, true_and]
    rw [← hu.unasked]
  | fails fuel taken emitted s hu fault t hn hstep =>
    simp only [proceed_fail hu hn hstep, true_and]
    rfl
  | ended fuel taken emitted s hu line t hstep hs =>
    rw [hq 0 _ t (.cons hstep (.refl t))] at hs
    cases hs
  | round fuel taken emitted s hu line t hut hstep hs ih =>
    have hround : proceed pauses undisturbed (fuel + 1) taken emitted s =
        proceed pauses undisturbed fuel (taken + 1) (line.toList ++ emitted) t :=
      proceed_round hu hstep rfl
    rw [proceed_round hu hstep hs, hround]
    apply ih
    intro k lines u h
    rw [show taken + 1 + (k + 1) = taken + (k + 1 + 1) by omega]
    exact hq (k + 1) _ u (.cons hstep h)

/-- A run whose `k`-th step succeeds, without an ending signal before it, comes to that step. -/
theorem proceed_to_last {k limit : Nat} {lines : List String} {last : Session} (hu : Underway s)
    (hk : 0 < k) (h : Steps s k lines last)
    (hq : ∀ i, 0 < i → i < k → (signals i).ends pauses = false) (hl : k ≤ limit) :
    ∃ fuel before first line, before.step = (.ok line, last) ∧ Underway before ∧
      lines = first ++ line.toList ∧
      proceed pauses signals limit 0 [] s =
        proceed pauses signals (fuel + 1) (k - 1) first.reverse before := by
  obtain ⟨j, rfl⟩ := Nat.exists_eq_add_one_of_ne_zero (Nat.ne_of_gt hk)
  obtain ⟨first, line, before, hsteps, hstep, hlines⟩ := h.last
  refine ⟨limit - (j + 1), before, first, line, hstep, hu.kept hsteps.kept, hlines, ?_⟩
  have hquiet : ∀ i, 0 < i → i ≤ j → (signals (0 + i)).ends pauses = false := by
    intro i hi hij
    rw [Nat.zero_add]
    exact hq i hi (by omega)
  have hrun : proceed pauses signals (j + (limit - (j + 1) + 1)) 0 [] s =
      proceed pauses signals (limit - (j + 1) + 1) (0 + j) (first.reverse ++ []) before :=
    proceed_steps hu hsteps hquiet
  rw [show j + (limit - (j + 1) + 1) = limit by omega] at hrun
  simpa using hrun

theorem proceed_cut (pauses : Bool) {raised : Nat → Bool} {k limit : Nat} {lines : List String}
    {last : Session} (hu : Underway s) (h : Cut raised s k lines last) (hl : k ≤ limit) :
    proceed pauses (stops raised) limit 0 [] s =
      (.finished (lines ++ [interruptionNotice]), last.phase .interrupted false) := by
  have hq : ∀ i, 0 < i → i < k → (stops raised i).ends pauses = false := by
    intro i hi hk
    rw [ends_stops]
    exact h.first i hi hk
  obtain ⟨fuel, before, first, line, hstep, hub, rfl, hrun⟩ :=
    proceed_to_last hu h.positive h.steps hq hl
  have hs : stops raised (k - 1 + 1) = .stop := by
    rw [Nat.sub_add_cancel h.positive, stops, h.up]
    rfl
  rw [hrun, proceed_stop hub hstep hs]
  cases line <;> simp

theorem proceed_dropped {raised : Nat → Bool} {k limit : Nat} {lines : List String}
    {last : Session} (hu : Underway s) (hk : 0 < k)
    (hr : ∀ i, 0 < i → i < k → raised i = false) (h : Steps s k lines last) (hl : k ≤ limit) :
    proceed true (abandonedAt k raised) limit 0 [] s =
      (.abandoned, last.phase .interrupted false) := by
  have hq : ∀ i, 0 < i → i < k → (abandonedAt k raised i).ends true = false := by
    intro i hi hik
    rw [abandonedAt, if_neg (Nat.ne_of_lt hik), ends_stops]
    exact hr i hi hik
  obtain ⟨fuel, before, first, line, hstep, hub, _, hrun⟩ := proceed_to_last hu hk h hq hl
  have hs : abandonedAt k raised (k - 1 + 1) = .abandon := by
    rw [Nat.sub_add_cancel hk, abandonedAt, if_pos rfl]
  rw [hrun, proceed_abandon hub hstep hs]

end

/-- Interruption cuts a run at a clean prefix. A run that is cut behind its `k`-th step gives the
lines of `k` steps on the fresh tape and then the notice, and leaves what these steps leave, with
the flag down again. A run that is not cut is the run that nothing disturbs, but for the flag. A
run abandoned in the pause behind its `k`-th step leaves what `k` steps leave. -/
theorem interruption_cuts_run (session : Session) (inputs : List String)
    (raised : Nat → Bool) :
    (∀ k lines last, Cut raised (session.setInputs inputs) k lines last → ∀ limit, k ≤ limit →
      session.run inputs (stops raised) limit =
          (.finished (lines ++ [interruptionNotice]), last.phase .interrupted false) ∧
        session.runPaced inputs (stops raised) limit =
          (.finished (lines ++ [interruptionNotice]), last.phase .interrupted false)) ∧
    ((∀ k lines last, ¬ Cut raised (session.setInputs inputs) k lines last) → ∀ limit,
      ((session.run inputs (stops raised) limit).1 = (session.run inputs undisturbed limit).1 ∧
        { (session.run inputs (stops raised) limit).2 with stopRequested := false } =
          (session.run inputs undisturbed limit).2) ∧
      ((session.runPaced inputs (stops raised) limit).1 =
          (session.runPaced inputs undisturbed limit).1 ∧
        { (session.runPaced inputs (stops raised) limit).2 with stopRequested := false } =
          (session.runPaced inputs undisturbed limit).2)) ∧
    (session.pauses = true → ∀ k lines last, 0 < k →
      (∀ i, 0 < i → i < k → raised i = false) →
      Steps (session.setInputs inputs) k lines last → ∀ limit, k ≤ limit →
      session.runPaced inputs (abandonedAt k raised) limit =
        (.abandoned, last.phase .interrupted false)) := by
  have hu := underway_start session inputs
  refine ⟨?_, ?_, ?_⟩
  · intro k lines last hcut limit hl
    have hrun := fun pauses => proceed_cut pauses hu (hcut.phase .running false) hl
    exact ⟨hrun false, hrun session.pauses⟩
  · intro hc limit
    have hdown : ∀ pauses k lines t, Steps (session.start inputs) (k + 1) lines t →
        (stops raised (0 + (k + 1))).ends pauses = false := by
      intro pauses k lines t h
      rw [Nat.zero_add, ends_stops]
      exact down_of_not_cut hc (h.phase session.state session.stopRequested)
    exact ⟨proceed_undisturbed hu (hdown false), proceed_undisturbed hu (hdown session.pauses)⟩
  · intro hp k lines last hk hr h limit hl
    have hdrop := proceed_dropped hu hk hr (h.phase .running false) hl
    rw [runPaced, hp]
    exact hdrop

def endless : Session where
  machine := "RAM"
  settings := { stepDelay := 5 }
  table := Ram.table
  workspace := {}
  program := ⟨#[{ opcode := "WRITE", label := some "LOOP", value := some 7, mode := .direct
                  raw := "LOOP: WRITE =7", line := 1 },
                { opcode := "JUMP", target := some "LOOP", raw := "JUMP LOOP", line := 2 }]⟩

theorem steps_endless :
    Steps (endless.setInputs []) 3 ["7", "7"] ((endless.setInputs []).stepMany 3).2 := by
  refine steps_iff_stepMany.mpr ⟨[some "7", none, some "7"], rfl, rfl, Prod.ext ?_ rfl⟩
  with_unfolding_all rfl

/-- A program without an end is stopped behind its third step, and abandoned there. -/
theorem interruption_cuts_run_endless :
    Cut (· == 3) (endless.setInputs []) 3 ["7", "7"] ((endless.setInputs []).stepMany 3).2 ∧
    endless.run [] (stops (· == 3)) 10 =
      (.finished ["7", "7", interruptionNotice],
        ((endless.setInputs []).stepMany 3).2.phase .interrupted false) ∧
    endless.runPaced [] (abandonedAt 3 fun _ => false) 10 =
      (.abandoned, ((endless.setInputs []).stepMany 3).2.phase .interrupted false) := by
  have hcut : Cut (· == 3) (endless.setInputs []) 3 ["7", "7"]
      ((endless.setInputs []).stepMany 3).2 := by
    refine ⟨by decide, by decide, ?_, steps_endless⟩
    intro i _ hi
    exact beq_eq_false_iff_ne.mpr (Nat.ne_of_lt hi)
  refine ⟨hcut, ?_, ?_⟩
  · exact ((interruption_cuts_run endless [] (· == 3)).1 3 _ _ hcut 10 (by decide)).1
  · exact (interruption_cuts_run endless [] fun _ => false).2.2 rfl 3 _ _ (by decide)
      (fun _ _ _ => rfl) steps_endless 10 (by decide)

end RegisterMachine.Session

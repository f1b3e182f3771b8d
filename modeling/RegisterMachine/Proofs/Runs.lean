import RegisterMachine.Proofs.Steps
import RegisterMachine.Session.Run

namespace RegisterMachine

/-- Whether a signal ends the run that it reaches; one without pauses is not abandoned. -/
def Signal.ends (pauses : Bool) : Signal → Bool
  | .quiet => false
  | .stop => true
  | .abandon => pauses

namespace Session

/-- A run is under way and nothing has asked it to stop. -/
structure Underway (s : Session) : Prop where
  running : s.state = .running
  unasked : s.stopRequested = false

theorem Underway.kept {s t : Session} (h : Underway s) (hk : Kept s t) : Underway t :=
  ⟨hk.state.trans h.running, hk.stopRequested.trans h.unasked⟩

theorem underway_start (s : Session) (inputs : List String) : Underway (s.start inputs) :=
  ⟨rfl, rfl⟩

theorem finish_eq_phase {s : Session} (h : Underway s) (state : Lifecycle) :
    s.finish state = s.phase state false := by
  rw [← h.unasked]
  rfl

theorem hear_stop {s : Session} (h : Underway s) :
    s.hear .stop = { s with stopRequested := true } := by
  simp [hear, requestStop, h.running]

theorem hear_of_not_stop (s : Session) {signal : Signal} (h : signal ≠ .stop) :
    s.hear signal = s := by
  cases signal with
  | quiet => rfl
  | stop => exact absurd rfl h
  | abandon => rfl

/-- Where a run stands behind steps that emitted the given lines: at the end of the program,
stopped, abandoned, at a step that fails, or out of fuel. -/
inductive Standing (lines : List String) (last : Session) : Outcome → Session → Prop
  | ended (atEnd : last.hasNext = false) :
      Standing lines last (.finished lines) (last.phase .halted false)
  | stopped :
      Standing lines last (.finished (lines ++ [interruptionNotice]))
        (last.phase .interrupted false)
  | abandoned : Standing lines last .abandoned (last.phase .interrupted false)
  | failed {fault : Fault} {after : Session} (next : last.hasNext = true)
      (step : last.step = (.error fault, after)) (flag : Bool) :
      Standing lines last (.failed fault) (after.phase .halted flag)
  | unfinished (next : last.hasNext = true) : Standing lines last (.unfinished lines) last

/-- What a run comes to that a signal ends; `emitted` holds its lines, the last one first. -/
def cutOutcome (signal : Signal) (emitted : List String) : Outcome :=
  match signal with
  | .abandon => .abandoned
  | .stop | .quiet => .finished (interruptionNotice :: emitted).reverse

/-- How many steps of a run succeed: it goes on until a step fails, fuel is spent, or a signal
reaches a step that ends the run behind it. -/
def rounds (pauses : Bool) (signals : Nat → Signal) : Nat → Nat → Session → Nat
  | 0, _, _ => 0
  | fuel + 1, taken, s =>
    match s.step with
    | (.error _, _) => 0
    | (.ok _, after) =>
      if (signals (taken + 1)).ends pauses then 1
      else rounds pauses signals fuel (taken + 1) after + 1

section
variable {pauses : Bool} {signals : Nat → Signal} {fuel taken : Nat} {emitted : List String}
  {s t : Session} {line : Option String} {fault : Fault}

theorem rounds_eq_zero (h : ∀ line t, s.step ≠ (.ok line, t)) :
    rounds pauses signals fuel taken s = 0 := by
  cases fuel with
  | zero => rfl
  | succ fuel =>
    obtain ⟨r, after, hstep⟩ : ∃ r after, s.step = (r, after) := ⟨_, _, rfl⟩
    cases r with
    | error fault => rw [rounds, hstep]
    | ok line => exact absurd hstep (h line after)

theorem rounds_step (h : s.step = (.ok line, t)) :
    rounds pauses signals (fuel + 1) taken s =
      if (signals (taken + 1)).ends pauses then 1
      else rounds pauses signals fuel (taken + 1) t + 1 := by
  rw [rounds, h]

theorem proceed_end (h : s.hasNext = false) :
    proceed pauses signals fuel taken emitted s = (.finished emitted.reverse, s.finish .halted) := by
  unfold proceed
  simp [h]

theorem proceed_spent (h : s.hasNext = true) :
    proceed pauses signals 0 taken emitted s = (.unfinished emitted.reverse, s) := by
  unfold proceed
  simp [h]

/-- A step that succeeds and that no ending signal reaches is one round of the loop. -/
theorem proceed_round (hu : Underway s) (h : s.step = (.ok line, t))
    (hq : (signals (taken + 1)).ends pauses = false) :
    proceed pauses signals (fuel + 1) taken emitted s =
      proceed pauses signals fuel (taken + 1) (line.toList ++ emitted) t := by
  have hns : signals (taken + 1) ≠ .stop := by
    intro he
    simp [he, Signal.ends] at hq
  have hna : ¬ (pauses = true ∧ signals (taken + 1) = .abandon) := by
    rintro ⟨hp, he⟩
    simp [he, hp, Signal.ends] at hq
  have hf : t.stopRequested = false := (hu.kept (step_kept h)).unasked
  rw [proceed]
  simp only [hasNext_of_step_ok h, if_true, h, if_neg hna, hear_of_not_stop t hns, hf,
    Bool.false_eq_true, if_false]

/-- A stop heard at a step that succeeds ends the run behind that step. -/
theorem proceed_stop (hu : Underway s) (h : s.step = (.ok line, t))
    (hs : signals (taken + 1) = .stop) :
    proceed pauses signals (fuel + 1) taken emitted s =
      (.finished (interruptionNotice :: (line.toList ++ emitted)).reverse,
        t.phase .interrupted false) := by
  have ht := hear_stop (hu.kept (step_kept h))
  rw [proceed]
  simp [hasNext_of_step_ok h, h, hs, ht, finish, phase]

/-- A run abandoned in the pause behind a step ends there and gives nothing back. -/
theorem proceed_abandon (hu : Underway s) (h : s.step = (.ok line, t))
    (hs : signals (taken + 1) = .abandon) :
    proceed true signals (fuel + 1) taken emitted s = (.abandoned, t.phase .interrupted false) := by
  rw [proceed]
  simp [hasNext_of_step_ok h, h, hs, finish_eq_phase (hu.kept (step_kept h))]

/-- A signal that ends a run ends it behind the step that it reaches, if this succeeds. -/
theorem proceed_ended (hu : Underway s) (h : s.step = (.ok line, t))
    (hs : (signals (taken + 1)).ends pauses = true) :
    proceed pauses signals (fuel + 1) taken emitted s =
      (cutOutcome (signals (taken + 1)) (line.toList ++ emitted), t.phase .interrupted false) := by
  cases hsignal : signals (taken + 1) with
  | quiet =>
    rw [hsignal] at hs
    cases hs
  | stop => exact proceed_stop hu h hsignal
  | abandon =>
    obtain rfl : pauses = true := by simpa [hsignal, Signal.ends] using hs
    exact proceed_abandon hu h hsignal

/-- A step that fails ends the run, whatever signal comes with it. -/
theorem proceed_fail (hu : Underway s) (hn : s.hasNext = true) (h : s.step = (.error fault, t)) :
    proceed pauses signals (fuel + 1) taken emitted s =
      (.failed fault, t.phase .halted (signals (taken + 1) == .stop)) := by
  have ht := hu.kept (step_kept h)
  rw [proceed]
  simp only [hn, if_true, h]
  by_cases hs : signals (taken + 1) = .stop
  · simp [hs, hear_stop ht, finish, phase]
  · simp [hear_of_not_stop t hs, finish_eq_phase ht, beq_eq_false_iff_ne.mpr hs]

/-- Induction along a run. It is at the end of the program or out of fuel, its next step fails or
is the last one before a signal ends it, or the run goes on behind that step. -/
@[elab_as_elim]
theorem proceed_induction (pauses : Bool) (signals : Nat → Signal)
    {motive : ∀ (_ _ : Nat) (_ : List String) (s : Session), Underway s → Prop}
    (atEnd : ∀ fuel taken emitted s hu, s.hasNext = false → motive fuel taken emitted s hu)
    (spent : ∀ taken emitted s hu, s.hasNext = true → motive 0 taken emitted s hu)
    (fails : ∀ fuel taken emitted s hu fault t, s.hasNext = true → s.step = (.error fault, t) →
      motive (fuel + 1) taken emitted s hu)
    (ended : ∀ fuel taken emitted s hu line t, s.step = (.ok line, t) →
      (signals (taken + 1)).ends pauses = true → motive (fuel + 1) taken emitted s hu)
    (round : ∀ fuel taken emitted s hu line t hut, s.step = (.ok line, t) →
      (signals (taken + 1)).ends pauses = false →
      motive fuel (taken + 1) (line.toList ++ emitted) t hut →
      motive (fuel + 1) taken emitted s hu)
    (fuel taken : Nat) (emitted : List String) (s : Session) (hu : Underway s) :
    motive fuel taken emitted s hu := by
  induction fuel generalizing taken emitted s with
  | zero =>
    cases hn : s.hasNext with
    | false => exact atEnd 0 taken emitted s hu hn
    | true => exact spent taken emitted s hu hn
  | succ fuel ih =>
    cases hn : s.hasNext with
    | false => exact atEnd (fuel + 1) taken emitted s hu hn
    | true =>
      obtain ⟨r, t, hstep⟩ : ∃ r t, s.step = (r, t) := ⟨_, _, rfl⟩
      cases r with
      | error fault => exact fails fuel taken emitted s hu fault t hn hstep
      | ok line =>
        cases hs : (signals (taken + 1)).ends pauses with
        | true => exact ended fuel taken emitted s hu line t hstep hs
        | false =>
          have hut := hu.kept (step_kept hstep)
          exact round fuel taken emitted s hu line t hut hstep hs (ih _ _ t hut)

theorem proceed_steps {k : Nat} {lines : List String} (hu : Underway s) (h : Steps s k lines t)
    (hq : ∀ i, 0 < i → i ≤ k → (signals (taken + i)).ends pauses = false) :
    proceed pauses signals (k + fuel) taken emitted s =
      proceed pauses signals fuel (taken + k) (lines.reverse ++ emitted) t := by
  induction h generalizing taken emitted with
  | refl s => simp
  | @cons s t u line k lines head tail ih =>
    rw [show k + 1 + fuel = (k + fuel) + 1 by omega,
      proceed_round hu head (hq 1 (by omega) (by omega)),
      ih (hu.kept (step_kept head)) ?_]
    · congr 1
      · omega
      · cases line <;> simp
    · intro i hi hk
      rw [show taken + 1 + i = taken + (i + 1) by omega]
      exact hq (i + 1) (by omega) (by omega)

/-- Whatever signals reach it, a run stands behind its rounds, all of them steps that succeed. -/
theorem proceed_standing_rounds {outcome : Outcome} {after : Session} (hu : Underway s)
    (h : proceed pauses signals fuel taken emitted s = (outcome, after)) :
    ∃ lines last, Steps s (rounds pauses signals fuel taken s) lines last ∧
      Standing (emitted.reverse ++ lines) last outcome after := by
  induction fuel, taken, emitted, s, hu using proceed_induction pauses signals with
  | atEnd fuel taken emitted s hu hn =>
    rw [proceed_end hn, finish_eq_phase hu] at h
    cases h
    refine ⟨[], s, ?_, ?_⟩
    · rw [rounds_eq_zero fun line t hstep => by simp [hasNext_of_step_ok hstep] at hn]
      exact .refl s
    · rw [List.append_nil]
      exact .ended hn
  | spent taken emitted s hu hn =>
    rw [proceed_spent hn] at h
    cases h
    refine ⟨[], _, .refl _, ?_⟩
    rw [List.append_nil]
    exact .unfinished hn
  | fails fuel taken emitted s hu fault t hn hstep =>
    rw [proceed_fail hu hn hstep] at h
    cases h
    refine ⟨[], s, ?_, .failed hn hstep _⟩
    rw [rounds_eq_zero fun line t hok => by simp [hstep] at hok]
    exact .refl s
  | ended fuel taken emitted s hu line t hstep hs =>
    have hlines : (line.toList ++ emitted).reverse = emitted.reverse ++ line.toList := by
      cases line <;> simp
    refine ⟨line.toList ++ [], t, ?_, ?_⟩
    · rw [rounds_step hstep, hs]
      exact .cons hstep (.refl t)
    · rw [proceed_ended hu hstep hs] at h
      cases h
      cases hsignal : signals (taken + 1) with
      | quiet =>
        rw [hsignal] at hs
        cases hs
      | stop =>
        rw [cutOutcome, List.reverse_cons, hlines, List.append_nil]
        exact .stopped
      | abandon => exact .abandoned
  | round fuel taken emitted s hu line t hut hstep hs ih =>
    have hlines : (line.toList ++ emitted).reverse = emitted.reverse ++ line.toList := by
      cases line <;> simp
    rw [proceed_round hu hstep hs] at h
    obtain ⟨lines, last, hsteps, hstand⟩ := ih h
    rw [hlines, List.append_assoc] at hstand
    refine ⟨line.toList ++ lines, last, ?_, hstand⟩
    rw [rounds_step hstep, hs]
    exact .cons hstep hsteps

theorem proceed_standing {outcome : Outcome} {after : Session} (hu : Underway s)
    (h : proceed pauses signals fuel taken emitted s = (outcome, after)) :
    ∃ k lines last, Steps s k lines last ∧
      Standing (emitted.reverse ++ lines) last outcome after :=
  ⟨_, proceed_standing_rounds hu h⟩

end

/-- A run, paced or not, stands behind steps that succeed on its input. -/
theorem run_standing {s after : Session} {inputs : List String} {signals : Nat → Signal}
    {limit : Nat} {outcome : Outcome}
    (h : s.run inputs signals limit = (outcome, after) ∨
      s.runPaced inputs signals limit = (outcome, after)) :
    ∃ k lines last, Steps (s.start inputs) k lines last ∧ Standing lines last outcome after :=
  h.elim (proceed_standing (underway_start s inputs)) (proceed_standing (underway_start s inputs))

end Session

end RegisterMachine

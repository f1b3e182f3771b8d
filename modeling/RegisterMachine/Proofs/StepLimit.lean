import RegisterMachine.Proofs.Endings
import RegisterMachine.Proofs.FaultNotes
import RegisterMachine.Proofs.Histories

namespace RegisterMachine.Session

/-- The session without a limit on its steps. -/
def unlimited (s : Session) : Session :=
  { s with settings := { s.settings with maxSteps := none } }

/-- What a run without a limit comes to behind `k` steps is within reach of one that has taken
`spent` of `limit` steps: a program may end with the last step that is left, but a step that fails
has to be one of them. -/
def WithinLimit (limit spent k : Nat) : Outcome → Prop
  | .finished _ => spent + k ≤ limit
  | .failed _ => spent + k < limit
  | .abandoned | .unfinished _ => False

section
variable {s t : Session} {m : UInt64} {line : Option String} {k : Nat} {lines : List String}

theorem spentLimit?_eq_none (hm : s.settings.maxSteps = some m) :
    s.spentLimit? = none ↔ s.steps < m := by
  simp [spentLimit?, hm, Option.filter]

theorem spentLimit?_eq_some (hm : s.settings.maxSteps = some m) (h : m ≤ s.steps) :
    s.spentLimit? = some m := by
  simp [spentLimit?, hm, Option.filter, h]

/-- Under a limit a step is counted exactly. -/
theorem step_counts (hm : s.settings.maxSteps = some m) (h : s.step = (.ok line, t)) :
    s.steps < m ∧ t.steps.toNat = s.steps.toNat + 1 := by
  obtain ⟨_, w, _, hl, _, rfl⟩ := step_ok h
  have hlt : s.steps < m := (spentLimit?_eq_none hm).mp hl
  refine ⟨hlt, ?_⟩
  have hlt' : s.steps.toNat < m.toNat := UInt64.lt_iff_toNat_lt.mp hlt
  have hbound := m.toNat_lt
  change (s.steps + 1).toNat = s.steps.toNat + 1
  rw [UInt64.toNat_add, UInt64.toNat_one]
  exact Nat.mod_eq_of_lt (by omega)

theorem Steps.counts (hm : s.settings.maxSteps = some m) (h : Steps s k lines t) :
    t.steps.toNat = s.steps.toNat + k := by
  induction h with
  | refl s => rfl
  | cons head _ ih =>
    rw [ih ((step_kept head).settings ▸ hm), (step_counts hm head).2]
    omega

/-- A step that the limit allows is the step that is taken without one. -/
theorem step_unlimited (h : s.spentLimit? = none) :
    s.unlimited.step = (s.step.1, s.step.2.unlimited) := by
  have hn : s.unlimited.next? = s.next? := rfl
  have hl : s.unlimited.spentLimit? = none := rfl
  unfold step
  rw [hn]
  cases s.next? with
  | none => rfl
  | some operation =>
    simp only [h, hl]
    have hd : s.unlimited.table.dispatch s.unlimited.program operation s.unlimited.workspace =
        s.table.dispatch s.program operation s.workspace := rfl
    simp only [hd]
    cases s.table.dispatch s.program operation s.workspace with
    | ok line w => rfl
    | error fault w => rfl

theorem Steps.unlimited (h : Steps s k lines t) : Steps s.unlimited k lines t.unlimited := by
  induction h with
  | refl s => exact .refl _
  | cons head _ ih =>
    obtain ⟨_, _, _, hl, _, _⟩ := step_ok head
    refine .cons ?_ ih
    rw [step_unlimited hl, head]

/-- Steps without a limit can be taken under one that leaves room for all of them. -/
theorem Steps.limited {u : Session} (hm : s.settings.maxSteps = some m)
    (h : Steps s.unlimited k lines u) (hk : s.steps.toNat + k ≤ m.toNat) :
    ∃ t, Steps s k lines t ∧ t.unlimited = u := by
  induction k generalizing s lines with
  | zero =>
    cases h
    exact ⟨s, .refl s, rfl⟩
  | succ k ih =>
    cases h with
    | @cons _ _ _ line _ rest head tail =>
      have hlt : s.steps < m := UInt64.lt_iff_toNat_lt.mpr (by omega)
      rw [step_unlimited ((spentLimit?_eq_none hm).mpr hlt)] at head
      obtain ⟨r, t, hstep⟩ : ∃ r t, s.step = (r, t) := ⟨_, _, rfl⟩
      simp only [hstep, Prod.mk.injEq] at head
      obtain ⟨rfl, rfl⟩ := head
      have hcount := (step_counts hm hstep).2
      obtain ⟨last, hlast, rfl⟩ := ih ((step_kept hstep).settings ▸ hm) tail (by omega)
      exact ⟨last, .cons hstep hlast, rfl⟩

/-- Before its last step, and where a step fails, there is a next operation. -/
theorem Steps.hasNext_before {j : Nat} (h : Steps s k lines t) (hj : j ≤ k)
    (hnext : j = k → t.hasNext = true) :
    ∃ first u, Steps s j first u ∧ u.hasNext = true := by
  obtain ⟨n, rfl⟩ := Nat.exists_eq_add_of_le hj
  obtain ⟨first, rest, u, hu, hrest, _⟩ := h.split
  refine ⟨first, u, hu, ?_⟩
  cases n with
  | zero => cases hrest; exact hnext rfl
  | succ n => exact hrest.hasNext

/-- An ending within the limit is the ending of the limited steps. -/
theorem Ending.limited {u : Session} {outcome : Outcome} (hm : s.settings.maxSteps = some m)
    (h : Ending s.unlimited k outcome u) (hw : WithinLimit m.toNat s.steps.toNat k outcome) :
    ∃ t, Ending s k outcome t ∧ t.unlimited = u := by
  cases h with
  | finished steps atEnd =>
    obtain ⟨t, ht, rfl⟩ := steps.limited hm hw
    exact ⟨t, .finished ht atEnd, rfl⟩
  | failed steps next step =>
    obtain ⟨t, ht, rfl⟩ := steps.limited hm (Nat.le_of_lt hw)
    have hcount := ht.counts hm
    have hmt : t.settings.maxSteps = some m := ht.kept.settings ▸ hm
    have hlt : t.steps < m := UInt64.lt_iff_toNat_lt.mpr (by rw [hcount]; exact hw)
    rw [step_unlimited ((spentLimit?_eq_none hmt).mpr hlt)] at step
    obtain ⟨r, v, hstep⟩ : ∃ r v, t.step = (r, v) := ⟨_, _, rfl⟩
    rw [hstep] at step
    cases step
    exact ⟨v, .failed ht next hstep, rfl⟩

/-- Steps that do not end within the limit go on until it is spent. -/
theorem hasNext_of_not_withinLimit {limit spent : Nat} (hle : spent ≤ limit)
    (h : ∀ k outcome u, Ending s k outcome u → ¬ WithinLimit limit spent k outcome) :
    ∃ lines u, Steps s (limit - spent) lines u ∧ u.hasNext = true := by
  rcases ending_or_endless s with ⟨k, outcome, u, hend⟩ | hendless
  · have hbeyond := h k outcome u hend
    cases hend with
    | finished steps atEnd =>
      have hlt : limit < spent + k := Nat.lt_of_not_le hbeyond
      exact steps.hasNext_before (by omega) (by omega)
    | failed steps next step =>
      have hreach : limit ≤ spent + k := Nat.le_of_not_lt hbeyond
      exact steps.hasNext_before (by omega) (fun _ => next)
  · obtain ⟨lines, u, hu⟩ := hendless (limit - spent)
    exact ⟨lines, u, hu, hendless.hasNext hu⟩

/-- Where the limit is spent and an operation is next, its step fails and changes nothing. -/
theorem ending_at_limit {u : Session} (hm : s.settings.maxSteps = some m) (hle : s.steps ≤ m)
    (h : Steps s.unlimited (m.toNat - s.steps.toNat) lines u) (hn : u.hasNext = true) :
    ∃ t operation, u.next? = some operation ∧ t.unlimited = u ∧ t.steps = m ∧
      Ending s (m.toNat - s.steps.toNat) (.failed (limitFault m operation)) t := by
  have hle' : s.steps.toNat ≤ m.toNat := UInt64.le_iff_toNat_le.mp hle
  obtain ⟨t, ht, rfl⟩ := h.limited hm (by omega)
  obtain ⟨operation, hop⟩ := Option.isSome_iff_exists.mp hn
  have hcount := ht.counts hm
  have hspent : t.steps = m := UInt64.toNat_inj.mp (by omega)
  have hmt : t.settings.maxSteps = some m := ht.kept.settings ▸ hm
  have hop' : t.next? = some operation := hop
  have hlimit : t.spentLimit? = some m :=
    spentLimit?_eq_some hmt (hspent ▸ UInt64.le_refl t.steps)
  refine ⟨t, operation, hop, rfl, hspent, .failed ht hn ?_⟩
  simp only [step, hop', hlimit]

end

/-- No call takes a session beyond its limit. -/
theorem lasting_limit (settings : Settings) {m : UInt64} (hm : settings.maxSteps = some m) :
    Lasting fun s => s.settings = settings ∧ s.steps ≤ m where
  load := by
    intro s lines h
    exact ⟨h.1, UInt64.zero_le⟩
  setTape := by
    intro s tape h
    exact h
  setMemory := by
    intro s memory h
    exact h
  step := by
    intro s r t hstep h
    refine ⟨(step_kept hstep).settings.trans h.1, ?_⟩
    cases r with
    | ok line =>
      obtain ⟨hlt, hcount⟩ := step_counts (h.1 ▸ hm) hstep
      have hlt' := UInt64.lt_iff_toNat_lt.mp hlt
      exact UInt64.le_iff_toNat_le.mpr (by omega)
    | error fault =>
      rcases step_error hstep with ⟨_, _, rfl⟩ | ⟨_, _, _, _, _, rfl⟩ | ⟨_, _, _, _, _, rfl⟩
      · exact h.2
      · exact h.2
      · exact h.2
  phase := by
    intro s state flag h
    exact h
  reset := by
    intro s h
    exact ⟨h.1, UInt64.zero_le⟩

theorem reachable_within_limit {machine : Machine} {settings : Settings} {s : Session}
    {m : UInt64} (hm : settings.maxSteps = some m) (hs : Reachable machine settings s) :
    s.settings = settings ∧ s.steps ≤ m := by
  refine (lasting_limit settings hm).reachable ?_ hs
  intro s hcreate
  obtain ⟨table, _, rfl⟩ := create_ok hcreate
  exact ⟨rfl, UInt64.zero_le⟩

section
variable {s : Session} {m : UInt64} {inputs : List String}

theorem runEnds_within_limit {k : Nat} {outcome : Outcome} {u : Session}
    (hm : s.settings.maxSteps = some m) (h : RunEnds s.unlimited inputs k outcome u)
    (hw : WithinLimit m.toNat s.steps.toNat k outcome) :
    ∃ t, RunEnds s inputs k outcome t ∧
      t.memory = u.memory ∧ t.tape = u.tape ∧ t.steps = u.steps := by
  obtain ⟨last, hend, rfl⟩ := h.steps
  obtain ⟨t, ht, rfl⟩ := Ending.limited (s := s.setInputs inputs) hm hend hw
  exact ⟨_, ht.runEnds, rfl, rfl, rfl⟩

theorem runEnds_at_limit (hm : s.settings.maxSteps = some m) (hle : s.steps ≤ m)
    (h : ∀ k outcome u, RunEnds s.unlimited inputs k outcome u →
      ¬ WithinLimit m.toNat s.steps.toNat k outcome) :
    ∃ lines u operation t,
      Steps (s.unlimited.setInputs inputs) (m.toNat - s.steps.toNat) lines u ∧
      u.next? = some operation ∧ (limitFault m operation).kind = .stepLimitExceeded ∧
      RunEnds s inputs (m.toNat - s.steps.toNat) (.failed (limitFault m operation)) t ∧
      t.memory = u.memory ∧ t.tape = u.tape ∧ t.steps = m := by
  have hbeyond : ∀ k outcome u, Ending (s.unlimited.setInputs inputs) k outcome u →
      ¬ WithinLimit m.toNat s.steps.toNat k outcome := by
    intro k outcome u hend
    exact h k outcome _ hend.runEnds
  obtain ⟨lines, u, hu, hn⟩ :=
    hasNext_of_not_withinLimit (UInt64.le_iff_toNat_le.mp hle) hbeyond
  obtain ⟨t, operation, hop, rfl, hspent, hend⟩ :=
    ending_at_limit (s := s.setInputs inputs) hm hle hu hn
  have hkind : (limitFault m operation).kind = .stepLimitExceeded := by
    rw [limitFault, Fault.kind_atOperation, Fault.kind_raisedIn]
    rfl
  exact ⟨lines, _, operation, _, hu, hop, hkind, hend.runEnds, rfl, rfl, hspent⟩

theorem WithinLimit.le {limit spent k : Nat} {outcome : Outcome}
    (h : WithinLimit limit spent k outcome) : k ≤ limit - spent := by
  cases outcome with
  | finished lines => exact Nat.le_sub_of_add_le' h
  | failed fault => exact Nat.le_sub_of_add_le' (Nat.le_of_lt h)
  | abandoned => exact h.elim
  | unfinished lines => exact h.elim

theorem limited_run_ends (hm : s.settings.maxSteps = some m) (hle : s.steps ≤ m) :
    ∃ k outcome t, k ≤ m.toNat - s.steps.toNat ∧ RunEnds s inputs k outcome t := by
  by_cases hw : ∃ k outcome u, RunEnds s.unlimited inputs k outcome u ∧
      WithinLimit m.toNat s.steps.toNat k outcome
  · obtain ⟨k, outcome, u, hend, hw⟩ := hw
    obtain ⟨t, ht, _⟩ := runEnds_within_limit hm hend hw
    exact ⟨k, outcome, t, hw.le, ht⟩
  · have hbeyond : ∀ k outcome u, RunEnds s.unlimited inputs k outcome u →
        ¬ WithinLimit m.toNat s.steps.toNat k outcome := by
      intro k outcome u hend hle
      exact hw ⟨k, outcome, u, hend, hle⟩
    obtain ⟨_, _, operation, t, _, _, _, ht, _⟩ := runEnds_at_limit hm hle hbeyond
    exact ⟨_, _, t, Nat.le_refl _, ht⟩

end

/-- The step limit is exact and otherwise invisible. No calls take the count of steps beyond the
limit, and so it never overflows. A limited run ends within the steps that are left. If the run
without a limit ends within them, the limited run ends in the same way; otherwise it takes all of
them and fails at the next operation, with memory and tape as the other run has them there. -/
theorem step_limit_is_exact (m : UInt64) :
    (∀ machine settings s, settings.maxSteps = some m → Reachable machine settings s →
      s.steps ≤ m ∧
        ∀ line t, s.step = (.ok line, t) → t.steps.toNat = s.steps.toNat + 1) ∧
    ∀ (s : Session) inputs, s.settings.maxSteps = some m → s.steps ≤ m →
      (∃ k outcome t, k ≤ m.toNat - s.steps.toNat ∧ RunEnds s inputs k outcome t) ∧
      (∀ k outcome u, RunEnds s.unlimited inputs k outcome u →
        WithinLimit m.toNat s.steps.toNat k outcome →
        ∃ t, RunEnds s inputs k outcome t ∧
          t.memory = u.memory ∧ t.tape = u.tape ∧ t.steps = u.steps) ∧
      ((∀ k outcome u, RunEnds s.unlimited inputs k outcome u →
          ¬ WithinLimit m.toNat s.steps.toNat k outcome) →
        ∃ lines u operation t,
          Steps (s.unlimited.setInputs inputs) (m.toNat - s.steps.toNat) lines u ∧
          u.next? = some operation ∧ (limitFault m operation).kind = .stepLimitExceeded ∧
          RunEnds s inputs (m.toNat - s.steps.toNat) (.failed (limitFault m operation)) t ∧
          t.memory = u.memory ∧ t.tape = u.tape ∧ t.steps = m) := by
  refine ⟨?_, ?_⟩
  · intro machine settings s hm hs
    obtain ⟨hsettings, hle⟩ := reachable_within_limit hm hs
    refine ⟨hle, ?_⟩
    intro line t hstep
    exact (step_counts (hsettings ▸ hm) hstep).2
  · intro s inputs hm hle
    refine ⟨limited_run_ends hm hle, ?_, runEnds_at_limit hm hle⟩
    intro k outcome u hend hw
    exact runEnds_within_limit hm hend hw

/-- A session that may take two steps and has a program of three. -/
def hurried : Session where
  machine := "RAM"
  settings := { maxSteps := some 2 }
  table := Ram.table
  workspace := {}
  program :=
    ⟨#[{ opcode := "WRITE", value := some 7, mode := .direct, raw := "WRITE =7", line := 1 },
       { opcode := "WRITE", value := some 8, mode := .direct, raw := "WRITE =8", line := 2 },
       { opcode := "HALT", raw := "HALT", line := 3 }]⟩

theorem ending_hurried :
    ∃ u, Ending (hurried.unlimited.setInputs []) 3 (.finished ["7", "8"]) u := by
  have hsteps : Steps (hurried.unlimited.setInputs []) 3 ["7", "8"]
      ((hurried.unlimited.setInputs []).stepMany 3).2 := by
    refine steps_iff_stepMany.mpr ⟨[some "7", some "8", none], rfl, rfl, Prod.ext ?_ rfl⟩
    with_unfolding_all rfl
  exact ⟨_, .finished hsteps (by decide +kernel)⟩

/-- Without the limit the third step ends the program; with it, that step is one too many. -/
theorem step_limit_is_exact_hurried :
    (∃ u, Ending (hurried.unlimited.setInputs []) 3 (.finished ["7", "8"]) u) ∧
    ∃ fault t, fault.kind = .stepLimitExceeded ∧ RunEnds hurried [] 2 (.failed fault) t ∧
      t.steps = 2 := by
  refine ⟨ending_hurried, ?_⟩
  obtain ⟨u, hu⟩ := ending_hurried
  have hbeyond : ∀ k outcome v, RunEnds hurried.unlimited [] k outcome v →
      ¬ WithinLimit (2 : UInt64).toNat hurried.steps.toNat k outcome := by
    intro k outcome v hends hw
    obtain ⟨last, hlast, _⟩ := hends.steps
    obtain ⟨rfl, rfl, _⟩ := hu.unique hlast
    exact absurd hw.le (by decide)
  obtain ⟨_, _, operation, t, _, _, hkind, ht, _, _, hsteps⟩ :=
    ((step_limit_is_exact 2).2 hurried [] rfl (by decide)).2.2 hbeyond
  exact ⟨_, t, hkind, ht, hsteps⟩

end RegisterMachine.Session

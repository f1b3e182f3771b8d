import RegisterMachine.Problem

namespace RegisterMachine.Fault

/-- All that is noted under a key, in order. -/
def notesUnder (fault : Fault) (key : String) : List String :=
  (fault.notes.filter (·.1 == key)).map Prod.snd

theorem note?_eq_head? (fault : Fault) (key : String) :
    fault.note? key = (fault.notesUnder key).head? := by
  unfold note? notesUnder
  induction fault.notes with
  | nil => rfl
  | cons note rest ih =>
    obtain ⟨k, value⟩ := note
    by_cases hk : k = key
    · subst hk
      simp
    · have hk' : (key == k) = false := beq_eq_false_iff_ne.mpr (Ne.symm hk)
      simp [List.lookup_cons, hk, hk', ih]

theorem notesUnder_noting (fault : Fault) (key value k : String) :
    (fault.noting key value).notesUnder k =
      fault.notesUnder k ++ if key = k then [value] else [] := by
  by_cases hk : key = k
  · simp [notesUnder, noting, hk]
  · simp [notesUnder, noting, hk]

theorem kind_atOperation (fault : Fault) (operation : Operation) :
    (fault.atOperation operation).kind = fault.kind := by
  unfold atOperation
  split <;> rfl

theorem tier_atOperation (fault : Fault) (operation : Operation) :
    (fault.atOperation operation).tier = fault.tier := by
  unfold atOperation
  split <;> rfl

/-- A fault says what a problem says, whichever part raised it. -/
structure Shows (fault : Fault) (problem : Problem) : Prop where
  kind : fault.kind = problem.kind
  tier : fault.tier = problem.kind.tier
  notes : fault.notes = problem.notes

theorem shows_fault (problem : Problem) : problem.fault.Shows problem :=
  ⟨rfl, rfl, rfl⟩

theorem shows_raisedIn (problem : Problem) (origin : String) :
    (problem.fault.raisedIn origin).Shows problem :=
  ⟨kind_raisedIn _ _, tier_raisedIn _ _, by simp [notes_raisedIn, Problem.fault]⟩

/-- A fault says what a problem says, and at which one operation it arose. -/
structure ShowsAt (fault : Fault) (problem : Problem) (operation : Operation) : Prop where
  kind : fault.kind = problem.kind
  tier : fault.tier = problem.kind.tier
  text : fault.notesUnder "operation" = [operation.text]
  line : fault.notesUnder "line" = [Text.natural operation.line]

/-- No problem brings a note of its own about the operation. -/
theorem Shows.unlocated {fault : Fault} {problem : Problem} (h : fault.Shows problem) :
    fault.notesUnder "operation" = [] ∧ fault.notesUnder "line" = [] := by
  unfold notesUnder
  rw [h.notes]
  cases problem <;> simp [Problem.notes]

theorem Shows.atOperation {fault : Fault} {problem : Problem} (h : fault.Shows problem)
    (operation : Operation) : (fault.atOperation operation).ShowsAt problem operation := by
  obtain ⟨htext, hline⟩ := h.unlocated
  have hnew : fault.note? "operation" = none := by
    rw [note?_eq_head?, htext]
    rfl
  have hnoted : fault.atOperation operation =
      (fault.noting "line" (Text.natural operation.line)).noting "operation" operation.text := by
    simp only [Fault.atOperation, hnew]
  refine ⟨?_, ?_, ?_, ?_⟩
  · rw [kind_atOperation, h.kind]
  · rw [tier_atOperation, h.tier]
  · rw [hnoted, notesUnder_noting, notesUnder_noting, htext]
    rfl
  · rw [hnoted, notesUnder_noting, notesUnder_noting, hline]
    rfl

end RegisterMachine.Fault

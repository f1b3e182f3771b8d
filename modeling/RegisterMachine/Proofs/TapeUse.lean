import RegisterMachine.Proofs.FailingSteps

namespace RegisterMachine

/-- The fault without the number of tokens that were consumed before it. -/
def Fault.uncounted (fault : Fault) : Fault :=
  { fault with
    notes := fault.notes.map fun note => if note.1 = "consumed" then (note.1, "") else note }

theorem Fault.note?_uncounted (fault : Fault) {key : String} (h : key ≠ "consumed") :
    fault.uncounted.note? key = fault.note? key := by
  simp only [note?, uncounted]
  induction fault.notes with
  | nil => rfl
  | cons note notes ih =>
    obtain ⟨name, value⟩ := note
    by_cases hname : name = "consumed"
    · simp [hname, List.lookup_cons, beq_eq_false_iff_ne.mpr h, ih]
    · simp [hname, List.lookup_cons, ih]

theorem Fault.uncounted_atOperation (fault : Fault) (operation : Operation) :
    (fault.atOperation operation).uncounted = fault.uncounted.atOperation operation := by
  unfold atOperation
  rw [note?_uncounted fault (by decide)]
  cases fault.note? "operation" with
  | some text => rfl
  | none => simp [uncounted, noting]

/-- A result whose workspace has another tape. -/
def Action.onTape {α : Type} (tape : Tape) :
    EStateM.Result Fault Workspace α → EStateM.Result Fault Workspace α
  | .ok a w => .ok a { w with tape := tape }
  | .error fault w => .error fault { w with tape := tape }

namespace Handler

/-- A handler that neither looks at the tape nor moves it. -/
def Tapeless (handler : Handler) : Prop :=
  ∀ program operation w tape,
    handler program operation { w with tape := tape } =
      Action.onTape tape (handler program operation w)

/-- A handler takes no more from the tape than what comes next. Where it succeeds, it does so on
every tape whose rest goes on like this one's; where it fails, it fails alike on every tape with
the same rest, though a fault may tell how much was consumed before. -/
structure ReadsInOrder (handler : Handler) : Prop where
  ok : ∀ {program operation w line after}, handler program operation w = .ok line after →
    after.tape.tokens = w.tape.tokens ∧
      ∀ tape more, tape.rest = w.tape.rest ++ more → ∃ moved,
        handler program operation { w with tape := tape } =
          .ok line { after with tape := moved } ∧
        moved.rest = after.tape.rest ++ more
  error : ∀ {program operation w fault after}, handler program operation w = .error fault after →
    ∀ tape, tape.rest = w.tape.rest → ∃ fault',
      handler program operation { w with tape := tape } =
        .error fault' { after with tape := tape } ∧
      fault'.uncounted = fault.uncounted

theorem Tapeless.tape_ok {handler : Handler} (h : handler.Tapeless) {program : Program}
    {operation : Operation} {w after : Workspace} {line : Option String}
    (hok : handler program operation w = .ok line after) : after.tape = w.tape := by
  have hsame := h program operation w w.tape
  rw [hok] at hsame
  simp only [Action.onTape, EStateM.Result.ok.injEq, true_and] at hsame
  rw [hsame]

theorem Tapeless.readsInOrder {handler : Handler} (h : handler.Tapeless) :
    handler.ReadsInOrder where
  ok := by
    intro program operation w line after hok
    have htape : after.tape = w.tape := h.tape_ok hok
    refine ⟨by rw [htape], ?_⟩
    intro tape more hrest
    refine ⟨tape, ?_, by rw [htape, hrest]⟩
    rw [h program operation w tape, hok]
    rfl
  error := by
    intro program operation w fault after herror tape _
    refine ⟨fault, ?_, rfl⟩
    rw [h program operation w tape, herror]
    rfl

end Handler

namespace Ram

/-- What consumes no token does the same on every tape. -/
theorem Effect.enact_setTape {effect : Effect} (h : effect.consumes = false) (w : Workspace)
    (tape : Tape) : effect.enact { w with tape := tape } = Action.onTape tape (effect.enact w) := by
  cases effect with
  | consume address value => cases h
  | _ => rfl

/-- Only reading looks at the tape, and only reading moves it. -/
theorem Deed.tapeless {deed : Deed} (h : deed ≠ .read) : Handler.Tapeless deed.handler := by
  intro program operation w tape
  have hsame : deed.effect program operation { w with tape := tape } =
      deed.effect program operation w := by
    cases deed with
    | read => exact absurd rfl h
    | _ => rfl
  have hconsumes : (deed.effect program operation w).consumes = false := by
    cases deed with
    | read => exact absurd rfl h
    | _ => simp only [effect, computed, aimed] <;> (repeat' split) <;> rfl
  rw [deed.handler_apply, deed.handler_apply, hsame]
  exact Effect.enact_setTape hconsumes w tape

/-- A token is read from the front of the rest, and only the fault for an exhausted tape tells
how much was consumed before. -/
theorem read_readsInOrder : Handler.ReadsInOrder read where
  ok := by
    intro program operation w line after hok
    rw [read_apply, Deed.effect] at hok
    cases hpeek : w.tape.peek with
    | none => simp only [hpeek] at hok; cases hok
    | some token =>
      simp only [hpeek] at hok
      have hhead : w.tape.rest.head? = some token := by rw [← Tape.peek_eq_head?, hpeek]
      obtain ⟨rest, hw⟩ := List.head?_eq_some_iff.mp hhead
      split at hok
      · cases hok
      · split at hok
        · cases hok
        · rename_i value hvalue _ address haddress
          cases hok
          refine ⟨rfl, ?_⟩
          intro tape more hrest
          have hnext : tape.peek = some token := by rw [Tape.peek_eq_head?, hrest, hw]; rfl
          refine ⟨tape.advance, ?_, ?_⟩
          · rw [read_apply, Deed.effect]
            simp only [hnext, hvalue, haddress, Effect.enact]
          · rw [Tape.rest_advance, hrest, Tape.rest_advance, hw]
            rfl
  error := by
    intro program operation w fault after herror tape hrest
    have hpeek : tape.peek = w.tape.peek := by
      rw [Tape.peek_eq_head?, Tape.peek_eq_head?, hrest]
    rw [read_apply, Deed.effect] at herror ⊢
    simp only [hpeek]
    split at herror
    · cases herror
      exact ⟨_, rfl, rfl⟩
    · split at herror
      · cases herror
        exact ⟨_, rfl, rfl⟩
      · split at herror
        · cases herror
          exact ⟨_, rfl, rfl⟩
        · cases herror

theorem Deed.readsInOrder (deed : Deed) : Handler.ReadsInOrder deed.handler := by
  cases deed with
  | read => exact read_readsInOrder
  | _ => exact (tapeless (by simp)).readsInOrder

theorem entries_readsInOrder : ∀ entry ∈ entries, Handler.ReadsInOrder entry.handler :=
  forall_handler Deed.readsInOrder

end Ram

namespace OpcodeTable

theorem dispatch_unknown {table : OpcodeTable} {operation : Operation} (program : Program)
    (h : table.find? operation.opcode = none) (w : Workspace) :
    table.dispatch program operation w =
      .error (((Problem.invalidOpcode operation.opcode).fault.raisedIn
        "registry::dispatch").atOperation operation) w := by
  simp only [dispatch, h, Action.throw_apply]

theorem dispatch_readsInOrder {table : OpcodeTable} (h : table.HandledByRam) :
    Handler.ReadsInOrder table.dispatch where
  ok := by
    intro program operation w line after hok
    cases hf : table.find? operation.opcode with
    | none => rw [dispatch_unknown program hf] at hok; cases hok
    | some entry =>
      obtain ⟨known, hk, he⟩ := List.mem_map.mp (h entry (OpcodeTable.mem_of_find? hf))
      rw [dispatch_apply table program operation hf w, ← he] at hok
      split at hok
      · rename_i line' after' hhandled
        cases hok
        obtain ⟨htokens, hlonger⟩ := (Ram.entries_readsInOrder known hk).ok hhandled
        refine ⟨htokens, ?_⟩
        intro tape more hrest
        obtain ⟨moved, hmoved, hleft⟩ := hlonger tape more hrest
        refine ⟨moved, ?_, hleft⟩
        rw [dispatch_apply table program operation hf, ← he, hmoved]
      · cases hok
  error := by
    intro program operation w fault after herror tape hrest
    cases hf : table.find? operation.opcode with
    | none =>
      rw [dispatch_unknown program hf] at herror ⊢
      cases herror
      exact ⟨_, rfl, rfl⟩
    | some entry =>
      obtain ⟨known, hk, he⟩ := List.mem_map.mp (h entry (OpcodeTable.mem_of_find? hf))
      rw [dispatch_apply table program operation hf w, ← he] at herror
      split at herror
      · cases herror
      · rename_i fault' after' hhandled
        cases herror
        obtain ⟨other, hother, halike⟩ :=
          (Ram.entries_readsInOrder known hk).error hhandled tape hrest
        refine ⟨other.atOperation operation, ?_, ?_⟩
        · rw [dispatch_apply table program operation hf, ← he, hother]
        · rw [Fault.uncounted_atOperation, halike, Fault.uncounted_atOperation]

end OpcodeTable

namespace Session

section
variable {s t : Session} {line : Option String} {tape : Tape} {more : List String}

theorem step_longer (hr : s.table.HandledByRam) (h : s.step = (.ok line, t))
    (hrest : tape.rest = s.tape.rest ++ more) :
    ∃ moved, (s.setTape tape).step = (.ok line, t.setTape moved) ∧
      moved.rest = t.tape.rest ++ more := by
  obtain ⟨operation, w, hn, hl, hd, rfl⟩ := step_ok h
  obtain ⟨_, hlonger⟩ := (OpcodeTable.dispatch_readsInOrder hr).ok hd
  obtain ⟨moved, hmoved, hleft⟩ := hlonger tape more hrest
  have hn' : (s.setTape tape).next? = some operation := hn
  have hl' : (s.setTape tape).spentLimit? = none := hl
  have hd' : (s.setTape tape).table.dispatch (s.setTape tape).program operation
      (s.setTape tape).workspace = .ok line { w with tape := moved } := hmoved
  refine ⟨moved, ?_, hleft⟩
  simp only [step, hn', hl', hd']
  rfl

theorem step_tokens (hr : s.table.HandledByRam) (h : s.step = (.ok line, t)) :
    t.tape.tokens = s.tape.tokens := by
  obtain ⟨_, w, _, _, hd, rfl⟩ := step_ok h
  exact ((OpcodeTable.dispatch_readsInOrder hr).ok hd).1

/-- On tapes with the same rest a step fails alike. -/
theorem step_fails_alike {fault : Fault} (hr : s.table.HandledByRam)
    (h : s.step = (.error fault, t)) (hrest : tape.rest = s.tape.rest) :
    ∃ fault', (s.setTape tape).step = (.error fault', t.setTape tape) ∧
      fault'.uncounted = fault.uncounted := by
  rcases step_error h with ⟨hn, rfl, rfl⟩ | ⟨operation, limit, hn, hl, rfl, rfl⟩ |
    ⟨operation, w, hn, hl, hd, rfl⟩
  · have hn' : (t.setTape tape).next? = none := hn
    exact ⟨_, by simp only [step, hn']; rfl, rfl⟩
  · have hn' : (t.setTape tape).next? = some operation := hn
    have hl' : (t.setTape tape).spentLimit? = some limit := hl
    exact ⟨_, by simp only [step, hn', hl'], rfl⟩
  · obtain ⟨fault', hfault, halike⟩ :=
      (OpcodeTable.dispatch_readsInOrder hr).error hd tape hrest
    have hn' : (s.setTape tape).next? = some operation := hn
    have hl' : (s.setTape tape).spentLimit? = none := hl
    have hd' : (s.setTape tape).table.dispatch (s.setTape tape).program operation
        (s.setTape tape).workspace = .error fault' { w with tape := tape } := hfault
    refine ⟨fault', ?_, halike⟩
    simp only [step, hn', hl', hd']
    rfl

end

namespace Steps

variable {s t : Session} {k : Nat} {lines more : List String} {tape : Tape}

/-- Steps that succeed can be taken alike where more input follows. -/
theorem longer (hr : s.table.HandledByRam) (h : Steps s k lines t)
    (hrest : tape.rest = s.tape.rest ++ more) :
    ∃ moved, Steps (s.setTape tape) k lines (t.setTape moved) ∧
      moved.rest = t.tape.rest ++ more := by
  induction h generalizing tape with
  | refl s => exact ⟨tape, .refl _, hrest⟩
  | cons head _ ih =>
    obtain ⟨moved, hstep, hmoved⟩ := step_longer hr head hrest
    obtain ⟨last, hsteps, hlast⟩ := ih ((step_kept head).table ▸ hr) hmoved
    exact ⟨last, .cons hstep hsteps, hlast⟩

theorem tokens (hr : s.table.HandledByRam) (h : Steps s k lines t) :
    t.tape.tokens = s.tape.tokens := by
  induction h with
  | refl s => rfl
  | cons head _ ih => rw [ih ((step_kept head).table ▸ hr), step_tokens hr head]

end Steps

end Session

end RegisterMachine

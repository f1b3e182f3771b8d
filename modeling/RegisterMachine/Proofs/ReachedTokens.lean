import RegisterMachine.Proofs.LoadedPrograms
import RegisterMachine.Proofs.Numerals
import RegisterMachine.Proofs.TapeUse

namespace RegisterMachine

namespace Tape

/-- The token at a place, consumed or not. -/
def token? (tape : Tape) (place : Nat) : Option String :=
  tape.tokens.bind fun tokens => tokens[place]?

/-- The tape with its cursor at another place. -/
def movedTo (tape : Tape) (place : Nat) : Tape :=
  { tape with cursor := place }

/-- Two tapes stand at the same place and hold the same tokens before a bound. -/
structure SameUpTo (bound : Nat) (a b : Tape) : Prop where
  cursor : b.cursor = a.cursor
  token : ∀ i, i < bound → b.token? i = a.token? i

variable {a b : Tape} {bound : Nat}

theorem movedTo_self (h : b.cursor = a.cursor) : b.movedTo a.cursor = b := by
  rw [← h]
  rfl

theorem SameUpTo.shorter (h : SameUpTo bound a b) {less : Nat} (hle : less ≤ bound) :
    SameUpTo less a b :=
  ⟨h.cursor, fun i hi => h.token i (Nat.lt_of_lt_of_le hi hle)⟩

theorem SameUpTo.peek (h : SameUpTo bound a b) (hc : a.cursor < bound) : b.peek = a.peek := by
  have htoken := h.token a.cursor hc
  rw [← h.cursor] at htoken
  exact htoken.trans (by rw [h.cursor]; rfl)

/-- What two tapes hold does not depend on where they stand. -/
theorem SameUpTo.movedTo (h : SameUpTo bound a b) {moved : Tape} (ht : moved.tokens = a.tokens) :
    SameUpTo bound moved (b.movedTo moved.cursor) where
  cursor := rfl
  token := by
    intro i hi
    have hmoved : moved.token? i = a.token? i := by rw [token?, token?, ht]
    rw [hmoved]
    exact h.token i hi

theorem sameUpTo_ofList {ts ts' : List String} (h : ∀ i, i < bound → ts'[i]? = ts[i]?) :
    SameUpTo bound (ofList ts) (ofList ts') where
  cursor := rfl
  token := by
    intro i hi
    simpa [token?, ofList] using h i hi

theorem cursor_lt_of_peek {tape : Tape} {tokens : Array String} {token : String}
    (ht : tape.tokens = some tokens) (h : tape.peek = some token) : tape.cursor < tokens.size := by
  rw [Tape.peek, ht] at h
  exact (Array.getElem?_eq_some_iff.mp h).1

end Tape

/-- A handler looks no further than it has to: where it succeeds, at no token behind those that it
consumes; where it fails, at none behind the next. -/
structure Handler.LooksNoFurther (handler : Handler) : Prop where
  ok : ∀ {program operation w line after}, handler program operation w = .ok line after →
    ∀ tape, Tape.SameUpTo after.tape.cursor w.tape tape →
      handler program operation { w with tape := tape } =
        .ok line { after with tape := tape.movedTo after.tape.cursor }
  error : ∀ {program operation w fault after}, handler program operation w = .error fault after →
    ∀ tape, Tape.SameUpTo (w.tape.cursor + 1) w.tape tape →
      handler program operation { w with tape := tape } = .error fault { after with tape := tape }

theorem Handler.Tapeless.looksNoFurther {handler : Handler} (h : handler.Tapeless) :
    handler.LooksNoFurther where
  ok := by
    intro program operation w line after hok tape hsame
    rw [h program operation w tape, hok, h.tape_ok hok, Tape.movedTo_self hsame.cursor]
    rfl
  error := by
    intro program operation w fault after herror tape _
    rw [h program operation w tape, herror]
    rfl

namespace Ram

theorem read_ok {program : Program} {operation : Operation} {w after : Workspace}
    {line : Option String} (h : read program operation w = .ok line after) :
    ∃ token value address, w.tape.peek = some token ∧
      Text.readInt64 (Text.trim token) = .ok value ∧
      destination w.memory operation.toInstruction = .ok address ∧ line = none ∧
      after = ⟨w.memory.set address value, w.tape.advance⟩ := by
  rw [read_apply, Deed.effect] at h
  split at h
  · cases h
  · rename_i token hpeek
    split at h
    · cases h
    · rename_i value hvalue
      split at h
      · cases h
      · rename_i address haddress
        cases h
        exact ⟨token, value, address, hpeek, hvalue, haddress, rfl, rfl⟩

/-- A token that is read is consumed, and a token that is refused is the next one. -/
theorem read_looksNoFurther : Handler.LooksNoFurther read where
  ok := by
    intro program operation w line after hok tape hsame
    obtain ⟨token, value, address, hpeek, hvalue, haddress, rfl, rfl⟩ := read_ok hok
    have hnext : tape.peek = some token := by
      rw [← hpeek]
      exact hsame.peek (Nat.lt_succ_self w.tape.cursor)
    rw [read_apply, Deed.effect]
    simp only [hnext, hvalue, haddress, Effect.enact]
    rw [Tape.advance, hsame.cursor]
    rfl
  error := by
    intro program operation w fault after herror tape hsame
    have hpeek : tape.peek = w.tape.peek := hsame.peek (Nat.lt_succ_self w.tape.cursor)
    rw [read_apply, Deed.effect] at herror ⊢
    simp only [hpeek, hsame.cursor]
    split at herror
    · cases herror
      rfl
    · split at herror
      · cases herror
        rfl
      · split at herror
        · cases herror
          rfl
        · cases herror

/-- One opcode reads; the others neither look at the tape nor move it. -/
theorem entries_read_or_tapeless {entry : Entry} (h : entry ∈ entries) :
    (entry.descriptor.mnemonic = "READ" ∧ entry.handler = read) ∨
      (entry.descriptor.mnemonic ≠ "READ" ∧ Handler.Tapeless entry.handler) := by
  obtain ⟨deed, hdeed, hhandler⟩ := exists_deed h
  rw [hhandler]
  rcases read_of_mem_deeds hdeed with ⟨hread, rfl⟩ | ⟨hother, hne⟩
  · exact .inl ⟨hread, rfl⟩
  · exact .inr ⟨hother, Deed.tapeless hne⟩

theorem entries_lookNoFurther {entry : Entry} (h : entry ∈ entries) :
    Handler.LooksNoFurther entry.handler := by
  rcases entries_read_or_tapeless h with ⟨_, hread⟩ | ⟨_, htapeless⟩
  · rw [hread]
    exact read_looksNoFurther
  · exact htapeless.looksNoFurther

end Ram

namespace Session

section
variable {s t : Session} {line : Option String} {operation : Operation}

theorem RamLoaded.handledByRam (h : s.RamLoaded) : s.table.HandledByRam :=
  h.ram ▸ OpcodeTable.handledByRam_ram

theorem RamLoaded.start (h : s.RamLoaded) (inputs : List String) : (s.start inputs).RamLoaded :=
  ⟨h.ram, h.shaped⟩

/-- What a step that succeeds does to the tape. Reading stores the number that the next token
stands for and consumes it; no other operation touches the tape. -/
theorem RamLoaded.step_tape (h : s.RamLoaded) (hn : s.next? = some operation)
    (hstep : s.step = (.ok line, t)) :
    (operation.opcode = "READ" ∧ ∃ token value address, s.tape.peek = some token ∧
        Text.tokenValue? token = some value.toInt ∧
        Ram.destination s.memory operation.toInstruction = .ok address ∧
        t.memory = (s.memory.set address value).setInstructionPointer
          (advancePointer s.memory.instructionPointer) ∧
        t.tape = s.tape.advance) ∨
      (operation.opcode ≠ "READ" ∧ t.tape = s.tape) := by
  obtain ⟨entry, hmem, hopcode, hfind⟩ := h.entry hn
  obtain ⟨other, w, hn', _, hd, rfl⟩ := step_ok hstep
  obtain rfl : operation = other := Option.some.inj (hn.symm.trans hn')
  rw [OpcodeTable.dispatch_apply s.table s.program operation hfind] at hd
  rcases Ram.entries_read_or_tapeless hmem with ⟨hread, hhandler⟩ | ⟨hother, htapeless⟩
  · refine .inl ⟨hopcode.symm.trans hread, ?_⟩
    rw [hhandler] at hd
    split at hd
    · rename_i line' after hok
      cases hd
      obtain ⟨token, value, address, hpeek, hvalue, haddress, _, rfl⟩ := Ram.read_ok hok
      exact ⟨token, value, address, hpeek, Text.readInt64_trim_eq_ok_iff.mp hvalue, haddress,
        rfl, rfl⟩
    · cases hd
  · refine .inr ⟨hopcode ▸ hother, ?_⟩
    split at hd
    · rename_i line' after hok
      cases hd
      have htape : w.tape = s.workspace.tape := htapeless.tape_ok hok
      exact htape
    · cases hd

theorem RamLoaded.step_cursor (h : s.RamLoaded) (hstep : s.step = (.ok line, t)) :
    s.tape.cursor ≤ t.tape.cursor ∧ t.tape.tokens = s.tape.tokens := by
  obtain ⟨operation, _, hn, _⟩ := step_ok hstep
  rcases h.step_tape hn hstep with ⟨_, _, _, _, _, _, _, _, htape⟩ | ⟨_, htape⟩
  · rw [htape]
    exact ⟨Nat.le_succ s.tape.cursor, rfl⟩
  · rw [htape]
    exact ⟨Nat.le_refl _, rfl⟩

/-- A step that succeeds does so on every tape that agrees on the tokens consumed. -/
theorem RamLoaded.step_ok_alike (h : s.RamLoaded) (hstep : s.step = (.ok line, t)) {tape : Tape}
    (hsame : Tape.SameUpTo t.tape.cursor s.tape tape) :
    (s.setTape tape).step = (.ok line, t.setTape (tape.movedTo t.tape.cursor)) := by
  obtain ⟨operation, w, hn, hl, hd, rfl⟩ := step_ok hstep
  obtain ⟨entry, hmem, _, hfind⟩ := h.entry hn
  rw [OpcodeTable.dispatch_apply s.table s.program operation hfind] at hd
  split at hd
  · rename_i line' after hok
    cases hd
    have hother : entry.handler (s.setTape tape).program operation (s.setTape tape).workspace =
        .ok line { w with tape := tape.movedTo w.tape.cursor } :=
      (Ram.entries_lookNoFurther hmem).ok hok tape hsame
    have hn' : (s.setTape tape).next? = some operation := hn
    rw [step_of_find hn' hl hfind, hother]
    rfl
  · cases hd

/-- A step that fails does so alike on every tape that agrees up to the next token. -/
theorem RamLoaded.step_error_alike (h : s.RamLoaded) {fault : Fault}
    (hstep : s.step = (.error fault, t)) {tape : Tape}
    (hsame : Tape.SameUpTo (s.tape.cursor + 1) s.tape tape) :
    (s.setTape tape).step = (.error fault, t.setTape tape) := by
  rcases step_error hstep with ⟨hn, rfl, rfl⟩ | ⟨operation, limit, hn, hl, rfl, rfl⟩ |
    ⟨operation, w, hn, hl, hd, rfl⟩
  · have hn' : (t.setTape tape).next? = none := hn
    simp only [step, hn']
    rfl
  · have hn' : (t.setTape tape).next? = some operation := hn
    have hl' : (t.setTape tape).spentLimit? = some limit := hl
    simp only [step, hn', hl']
  · obtain ⟨entry, hmem, _, hfind⟩ := h.entry hn
    rw [OpcodeTable.dispatch_apply s.table s.program operation hfind] at hd
    split at hd
    · cases hd
    · rename_i raised after herror
      cases hd
      have hother : entry.handler (s.setTape tape).program operation (s.setTape tape).workspace =
          .error raised { w with tape := tape } :=
        (Ram.entries_lookNoFurther hmem).error herror tape hsame
      have hn' : (s.setTape tape).next? = some operation := hn
      rw [step_of_find hn' hl hfind, hother]
      rfl

end

/-- The operations that so many steps execute, in order. -/
def executed : Nat → Session → List Operation
  | 0, _ => []
  | k + 1, s => s.next?.toList ++ executed k s.step.2

/-- How many of so many steps read. -/
def readCount (k : Nat) (s : Session) : Nat :=
  (executed k s).countP fun operation => operation.opcode == "READ"

section
variable {s t : Session} {k : Nat} {lines : List String}

/-- The cursor moves by one with each operation that reads, and with no other. -/
theorem Steps.cursor (h : s.RamLoaded) (hs : Steps s k lines t) :
    t.tape.cursor = s.tape.cursor + readCount k s := by
  induction hs with
  | refl s => rfl
  | @cons s u t line k lines head tail ih =>
    obtain ⟨operation, _, hn, _⟩ := step_ok head
    have hcount : readCount (k + 1) s =
        (if operation.opcode = "READ" then 1 else 0) + readCount k u := by
      simp only [readCount, executed, hn, head, Option.toList_some, List.countP_append,
        List.countP_singleton, beq_iff_eq]
    rw [ih (h.kept (step_kept head)), hcount]
    rcases h.step_tape hn head with ⟨hread, _, _, _, _, _, _, _, htape⟩ | ⟨hother, htape⟩
    · rw [htape, if_pos hread, Tape.advance]
      simp only
      omega
    · rw [htape, if_neg hother]
      omega

theorem Steps.cursor_le (h : s.RamLoaded) (hs : Steps s k lines t) :
    s.tape.cursor ≤ t.tape.cursor := by
  rw [hs.cursor h]
  exact Nat.le_add_right _ _

/-- No more tokens are consumed than there are. -/
theorem Steps.cursor_le_size (h : s.RamLoaded) (hs : Steps s k lines t) {tokens : Array String}
    (ht : s.tape.tokens = some tokens) (hc : s.tape.cursor ≤ tokens.size) :
    t.tape.cursor ≤ tokens.size := by
  induction hs with
  | refl s => exact hc
  | @cons s u t line k lines head tail ih =>
    obtain ⟨operation, _, hn, _⟩ := step_ok head
    apply ih (h.kept (step_kept head))
    · rw [(h.step_cursor head).2, ht]
    · rcases h.step_tape hn head with ⟨_, _, _, _, hpeek, _, _, _, htape⟩ | ⟨_, htape⟩
      · rw [htape]
        exact Tape.cursor_lt_of_peek ht hpeek
      · rw [htape]
        exact hc

end

/-- How many tokens a run has looked at that left the cursor at a place: where it failed, it may
have looked at the next one. -/
def seenTokens (cursor : Nat) : Outcome → Nat
  | .failed _ => cursor + 1
  | .finished _ | .abandoned | .unfinished _ => cursor

theorem le_seenTokens (cursor : Nat) (outcome : Outcome) : cursor ≤ seenTokens cursor outcome := by
  cases outcome <;> simp [seenTokens]

section
variable {pauses : Bool} {signals : Nat → Signal} {fuel taken : Nat} {emitted : List String}
  {s after : Session} {outcome : Outcome}

/-- A run leaves the workspace of its successful steps, also where the next one fails. -/
theorem proceed_workspace (h : s.RamLoaded) (hu : Underway s)
    (hrun : proceed pauses signals fuel taken emitted s = (outcome, after)) :
    ∃ k lines last, Steps s k lines last ∧ after.workspace = last.workspace := by
  obtain ⟨k, lines, last, hs, hstand⟩ := proceed_standing hu hrun
  refine ⟨k, lines, last, hs, ?_⟩
  cases hstand with
  | ended atEnd => rfl
  | stopped => rfl
  | abandoned => rfl
  | failed next step flag =>
    rw [step_atomic (h.kept hs.kept).handledByRam step]
    rfl
  | unfinished next => rfl

theorem proceed_cursor_le (h : s.RamLoaded) (hu : Underway s)
    (hrun : proceed pauses signals fuel taken emitted s = (outcome, after)) :
    s.tape.cursor ≤ after.tape.cursor := by
  obtain ⟨k, lines, last, hs, hlast⟩ := proceed_workspace h hu hrun
  rw [show after.tape = last.tape from congrArg Workspace.tape hlast]
  exact hs.cursor_le h

theorem Underway.setTape (hu : Underway s) {tape : Tape} : Underway (s.setTape tape) :=
  ⟨hu.running, hu.unasked⟩

/-- A run comes to the same on every tape that agrees on the tokens it has looked at. -/
theorem proceed_alike (h : s.RamLoaded) (hu : Underway s)
    (hrun : proceed pauses signals fuel taken emitted s = (outcome, after)) {tape : Tape}
    (hsame : Tape.SameUpTo (seenTokens after.tape.cursor outcome) s.tape tape) :
    proceed pauses signals fuel taken emitted (s.setTape tape) =
      (outcome, after.setTape (tape.movedTo after.tape.cursor)) := by
  have hstay : ∀ {s : Session} {tape : Tape} {state flag}, tape.cursor = s.tape.cursor →
      (s.setTape tape).phase state flag =
        (s.phase state flag).setTape (tape.movedTo s.tape.cursor) := by
    intro s tape state flag hcursor
    rw [Tape.movedTo_self hcursor]
    rfl
  induction fuel, taken, emitted, s, hu using proceed_induction pauses signals
      generalizing tape with
  | atEnd fuel taken emitted s hu hn =>
    have hn' : (s.setTape tape).hasNext = false := hn
    rw [proceed_end hn, finish_eq_phase hu] at hrun
    cases hrun
    rw [proceed_end hn', finish_eq_phase hu.setTape, hstay hsame.cursor]
    rfl
  | spent taken emitted s hu hn =>
    have hn' : (s.setTape tape).hasNext = true := hn
    rw [proceed_spent hn] at hrun
    cases hrun
    rw [proceed_spent hn', Tape.movedTo_self hsame.cursor]
  | fails fuel taken emitted s hu fault t hn hstep =>
    have hn' : (s.setTape tape).hasNext = true := hn
    obtain rfl := step_atomic h.handledByRam hstep
    rw [proceed_fail hu hn hstep] at hrun
    cases hrun
    rw [proceed_fail hu.setTape hn' (h.step_error_alike hstep hsame), hstay hsame.cursor]
    rfl
  | ended fuel taken emitted s hu line t hstep hs =>
    rw [proceed_ended hu hstep hs] at hrun
    cases hrun
    have hstep' := h.step_ok_alike hstep (hsame.shorter (le_seenTokens _ _))
    rw [proceed_ended hu.setTape hstep' hs]
    rfl
  | round fuel taken emitted s hu line t hut hstep hs ih =>
    rw [proceed_round hu hstep hs] at hrun
    have ht := h.kept (step_kept hstep)
    -- The step has consumed no more than the whole run, so the other tape admits it too.
    have hreach := Nat.le_trans (proceed_cursor_le ht hut hrun) (le_seenTokens _ outcome)
    have hstep' := h.step_ok_alike hstep (hsame.shorter hreach)
    rw [proceed_round hu.setTape hstep' hs]
    exact ih ht hrun (hsame.movedTo (h.step_cursor hstep).2)

end

/-- Behind the steps of a run that began with the given tokens, as many of them are consumed as
operations have read, and the next operation that reads stores the number of the token after
these. -/
structure ReadsTokens (ts : List String) (s : Session) (k : Nat) (t : Session) : Prop where
  count : t.tape.cursor = readCount k s
  bound : t.tape.cursor ≤ ts.length
  stored : ∀ operation line u, t.next? = some operation → operation.opcode = "READ" →
    t.step = (.ok line, u) → ∃ token value address,
      ts[readCount k s]? = some token ∧ Text.tokenValue? token = some value.toInt ∧
      Ram.destination t.memory operation.toInstruction = .ok address ∧
      u.memory = (t.memory.set address value).setInstructionPointer
        (advancePointer t.memory.instructionPointer)

/-- What a way of running makes of tokens depends on those that it reaches only: on the consumed
ones where it finishes, and on the next one too where it fails. -/
structure NeedsReached (run : List String → Outcome × Session) (ts : List String) : Prop where
  finished : ∀ lines after, run ts = (.finished lines, after) →
    ∀ ts', ts'.take after.tape.cursor = ts.take after.tape.cursor →
      run ts' =
        (.finished lines, after.setTape ((Tape.ofList ts').movedTo after.tape.cursor))
  failed : ∀ fault after, run ts = (.failed fault, after) →
    ∀ ts', (∀ i, i ≤ after.tape.cursor → ts'[i]? = ts[i]?) →
      run ts' = (.failed fault, after.setTape ((Tape.ofList ts').movedTo after.tape.cursor))

section
variable {s t : Session} {ts : List String}

theorem RamLoaded.readsTokens (h : s.RamLoaded) {k : Nat} {lines : List String}
    (hs : Steps (s.start ts) k lines t) : ReadsTokens ts (s.start ts) k t := by
  have hstart := h.start ts
  have hcount : t.tape.cursor = readCount k (s.start ts) := by
    rw [hs.cursor hstart]
    exact Nat.zero_add _
  have htokens : (s.start ts).tape.tokens = some ts.toArray := rfl
  refine ⟨hcount, hs.cursor_le_size hstart htokens (Nat.zero_le _), ?_⟩
  intro operation line u hn hread hstep
  rcases (hstart.kept hs.kept).step_tape hn hstep with
    ⟨_, token, value, address, hpeek, hvalue, haddress, hmemory, _⟩ | ⟨hother, _⟩
  · refine ⟨token, value, address, ?_, hvalue, haddress, hmemory⟩
    rw [Tape.peek, hs.tokens hstart.handledByRam, htokens, hcount] at hpeek
    simpa using hpeek
  · exact absurd hread hother

theorem RamLoaded.needsReached (h : s.RamLoaded) (ts : List String) (pauses : Bool)
    (signals : Nat → Signal) (limit : Nat) :
    NeedsReached (fun inputs => proceed pauses signals limit 0 [] (s.start inputs)) ts := by
  have hstart := h.start ts
  have hu := underway_start s ts
  constructor
  · intro lines after hrun ts' hsame
    refine proceed_alike hstart hu hrun (Tape.sameUpTo_ofList ?_)
    intro i hi
    have hreached : i < after.tape.cursor := hi
    have htoken := congrArg (fun tokens : List String => tokens[i]?) hsame
    simpa only [List.getElem?_take, if_pos hreached] using htoken
  · intro fault after hrun ts' hsame
    refine proceed_alike hstart hu hrun (Tape.sameUpTo_ofList ?_)
    intro i hi
    exact hsame i (Nat.lt_succ_iff.mp hi)

end

/-- The tokens that a run reaches are consumed in order, and no other has any influence on it. At
all times as many are consumed as operations have read, the `j`-th of which has stored the number
of the `j`-th token; a run that finishes comes to the same on all tokens that begin with the
consumed ones, and one that fails on all that also agree on the next one. -/
theorem run_reads_reached_tokens {s : Session} {marker : Char} {source : List String}
    (hram : s.table = Ram.table)
    (hloaded : s.program = (Source.parseProgram Ram.table marker source).1) (ts : List String) :
    (∀ k lines t, Steps (s.start ts) k lines t → ReadsTokens ts (s.start ts) k t) ∧
    (∀ signals limit outcome after,
      s.run ts signals limit = (outcome, after) ∨
        s.runPaced ts signals limit = (outcome, after) →
      ∃ k lines last, Steps (s.start ts) k lines last ∧ after.workspace = last.workspace) ∧
    (∀ signals limit,
      NeedsReached (fun inputs => s.run inputs signals limit) ts ∧
        NeedsReached (fun inputs => s.runPaced inputs signals limit) ts) := by
  have h : s.RamLoaded := ramLoaded_of_parseProgram hram hloaded
  refine ⟨?_, ?_, ?_⟩
  · intro k lines t hs
    exact h.readsTokens hs
  · intro signals limit outcome after hrun
    have hu := underway_start s ts
    exact hrun.elim (proceed_workspace (h.start ts) hu) (proceed_workspace (h.start ts) hu)
  · intro signals limit
    exact ⟨h.needsReached ts false signals limit, h.needsReached ts s.pauses signals limit⟩

def forwarder : Session where
  machine := "RAM"
  settings := {}
  table := Ram.table
  workspace := {}
  program := (Source.parseProgram Ram.table '#' ["read 1", "read *1", "write 5"]).1

def belowZero : Fault :=
  (Problem.negativeRegister (-3)).fault.atOperation
    { opcode := "READ", value := some 1, mode := .pointer, raw := "read *1", line := 2 }

theorem run_forwarder :
    (forwarder.run ["5", " 7 ", "x"] undisturbed 9).1 = .finished ["7"] ∧
      (forwarder.run ["5", " 7 ", "x"] undisturbed 9).2.tape.cursor = 2 := by
  decide +kernel

theorem run_forwarder_below :
    (forwarder.run ["-3", "7"] undisturbed 9).1 = .failed belowZero ∧
      (forwarder.run ["-3", "7"] undisturbed 9).2.tape.cursor = 1 := by
  decide +kernel

/-- The second operation reads through the register that the first one fills. What follows the
two tokens may be anything; with a pointer below zero the second token counts, though it is not
consumed. -/
theorem run_reads_reached_tokens_forwarder :
    (∃ k lines last, Steps (forwarder.start ["5", " 7 ", "x"]) k lines last ∧
      readCount k (forwarder.start ["5", " 7 ", "x"]) = 2) ∧
    (forwarder.run ["5", " 7 ", "-1", "x"] undisturbed 9).1 = .finished ["7"] ∧
    (forwarder.run ["-3", "7", "x"] undisturbed 9).1 = .failed belowZero := by
  have hall := run_reads_reached_tokens (s := forwarder) rfl rfl
  obtain ⟨hlines, htwo⟩ := run_forwarder
  obtain ⟨hfault, hone⟩ := run_forwarder_below
  generalize hrun : forwarder.run ["5", " 7 ", "x"] undisturbed 9 = ended at hlines htwo
  generalize hfails : forwarder.run ["-3", "7"] undisturbed 9 = failed at hfault hone
  obtain ⟨_, after⟩ := ended
  obtain ⟨_, afterFault⟩ := failed
  subst hlines hfault
  refine ⟨?_, ?_, ?_⟩
  · obtain ⟨k, lines, last, hs, hlast⟩ := (hall _).2.1 _ _ _ _ (.inl hrun)
    refine ⟨k, lines, last, hs, ?_⟩
    rw [← ((hall _).1 k lines last hs).count, tape, ← hlast]
    exact htwo
  · have hsame : ["5", " 7 ", "-1", "x"].take 2 = ["5", " 7 ", "x"].take 2 := rfl
    rw [← htwo] at hsame
    exact congrArg Prod.fst (((hall _).2.2 undisturbed 9).1.finished _ _ hrun _ hsame)
  · have hsame : ∀ i, i ≤ 1 → ["-3", "7", "x"][i]? = ["-3", "7"][i]? := by decide
    rw [← hone] at hsame
    exact congrArg Prod.fst (((hall _).2.2 undisturbed 9).1.failed _ _ hfails _ hsame)

end Session

end RegisterMachine

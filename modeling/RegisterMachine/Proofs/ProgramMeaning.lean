import Mathlib.Data.List.Forall2
import RegisterMachine.Proofs.FaultNotes
import RegisterMachine.Proofs.LoadedPrograms
import RegisterMachine.Proofs.Runs
import RegisterMachine.Proofs.Tables
import RegisterMachine.Ram.Effects

namespace RegisterMachine

/-- Operations of two programs ask for the same: they have the same operand, and their targets
lead to the same index, or nowhere in both. -/
structure Operation.AsksSame (P Q : Program) (p q : Operation) : Prop where
  value : q.value = p.value
  mode : q.mode = p.mode
  target : q.target.map Q.findLabel = p.target.map P.findLabel

/-- Two results are the same, or both fail with the same kind of fault. -/
inductive Action.Alike {α : Type} :
    EStateM.Result Fault Workspace α → EStateM.Result Fault Workspace α → Prop
  | ok (a : α) (w : Workspace) : Alike (.ok a w) (.ok a w)
  | error {fault fault' : Fault} (w : Workspace) (kind : fault'.kind = fault.kind) :
      Alike (.error fault w) (.error fault' w)

theorem Action.Alike.of_eq {α : Type} {r r' : EStateM.Result Fault Workspace α} (h : r' = r) :
    Action.Alike r r' := by
  subst h
  cases r' with
  | ok a w => exact .ok a w
  | error fault w => exact .error w rfl

/-- A handler that goes by what an operation asks for. Of the program it sees the size and where
the target is; text, line and label of the operation it does not see. -/
def Handler.GoesByMeaning (handler : Handler) : Prop :=
  ∀ {P Q : Program} {p q : Operation}, P.size = Q.size → Operation.AsksSame P Q p q →
    ∀ w, Action.Alike (handler P p w) (handler Q q w)

namespace Ram

section
variable {P Q : Program} {p q : Operation}

theorem destination_eq (h : Operation.AsksSame P Q p q) (memory : Memory) :
    destination memory q.toInstruction = destination memory p.toInstruction := by
  simp only [destination, h.value, h.mode]

theorem operand_eq (h : Operation.AsksSame P Q p q) (memory : Memory) :
    operand memory q.toInstruction = operand memory p.toInstruction := by
  simp only [operand, h.value, h.mode, destination_eq h]

end

/-- Two effects are the same, or both are failures of one kind. -/
inductive Effect.Alike : Effect → Effect → Prop
  | same (effect : Effect) : Alike effect effect
  | fail {fault fault' : Fault} (kind : fault'.kind = fault.kind) :
      Alike (.fail fault) (.fail fault')

theorem Effect.Alike.of_eq {effect effect' : Effect} (h : effect' = effect) :
    Effect.Alike effect effect' :=
  h ▸ .same effect'

theorem Effect.Alike.enact {effect effect' : Effect} (h : Effect.Alike effect effect')
    (w : Workspace) : Action.Alike (effect.enact w) (effect'.enact w) := by
  cases h with
  | same => exact .of_eq rfl
  | fail kind => exact .error w kind

section
variable {P Q : Program} {p q : Operation}

theorem computed_eq (h : Operation.AsksSame P Q p q) (symbol : String) (apply : Int → Int → Int)
    (w : Workspace) : computed symbol apply q w = computed symbol apply p w := by
  simp only [computed, operand_eq h]

/-- A jump goes to an index; only the fault of one that goes nowhere shows the label. -/
theorem aimed_alike (h : Operation.AsksSame P Q p q) :
    Effect.Alike (aimed P p) (aimed Q q) := by
  have htarget := h.target
  unfold aimed
  cases hp : p.target with
  | none =>
    have hq : q.target = none := by simpa [hp] using htarget
    simp only [hq]
    exact .same _
  | some a =>
    obtain ⟨b, hq⟩ : ∃ b, q.target = some b := by
      rw [hp, Option.map_some] at htarget
      obtain ⟨b, hb, _⟩ := Option.map_eq_some_iff.mp htarget
      exact ⟨b, hb⟩
    have hfind : Q.findLabel b = P.findLabel a := by simpa [hp, hq] using htarget
    simp only [hq, hfind]
    cases P.findLabel a with
    | none => exact .fail (by simp [Problem.fault, Problem.kind])
    | some index => exact .same _

theorem Deed.effect_alike (deed : Deed) (hsize : P.size = Q.size)
    (h : Operation.AsksSame P Q p q) (w : Workspace) :
    Effect.Alike (deed.effect P p w) (deed.effect Q q w) := by
  cases deed with
  | load => exact .of_eq (by simp only [effect, operand_eq h])
  | store => exact .of_eq (by simp only [effect, destination_eq h])
  | compute symbol apply => exact .of_eq (computed_eq h symbol apply w)
  | divide => exact .of_eq (by simp only [effect, operand_eq h, computed_eq h])
  | read => exact .of_eq (by simp only [effect, destination_eq h])
  | write => exact .of_eq (by simp only [effect, operand_eq h])
  | jump => exact aimed_alike h
  | jumpIf condition =>
    simp only [effect]
    split
    · exact aimed_alike h
    · exact .same _
  | halt => exact .of_eq (by simp only [effect, hsize])

end

theorem Deed.goesByMeaning (deed : Deed) : Handler.GoesByMeaning deed.handler := by
  intro P Q p q hsize h w
  rw [deed.handler_apply, deed.handler_apply]
  exact (deed.effect_alike hsize h w).enact w

theorem entries_goByMeaning : ∀ entry ∈ entries, Handler.GoesByMeaning entry.handler :=
  forall_handler Deed.goesByMeaning

/-- Two opcodes stand for one instruction: they are equal, or both are names of multiplication. -/
def SameOpcode (a b : String) : Prop :=
  a = b ∨ a ∈ ["MUL", "MULT"] ∧ b ∈ ["MUL", "MULT"]

/-- Operations of two programs mean the same: one instruction on the same operand, and targets,
where there are some, that lead to the same index, or nowhere in both. -/
structure SameMeaning (P Q : Program) (p q : Operation) : Prop where
  opcode : SameOpcode p.opcode q.opcode
  value : q.value = p.value
  mode : q.mode = p.mode
  target : ∀ a b, p.target = some a → q.target = some b → Q.findLabel b = P.findLabel a

/-- Programs of one length whose operations mean the same, index by index. -/
structure MeanSame (P Q : Program) : Prop where
  size : P.size = Q.size
  operations : ∀ (i : Nat) p q, P.operations[i]? = some p → Q.operations[i]? = some q →
    SameMeaning P Q p q

theorem MeanSame.at? {P Q : Program} (h : MeanSame P Q) (pointer : Int64) :
    (P.at? pointer = none ∧ Q.at? pointer = none) ∨
      ∃ p q, P.at? pointer = some p ∧ Q.at? pointer = some q ∧ SameMeaning P Q p q := by
  unfold Program.at?
  split
  · exact .inl ⟨rfl, rfl⟩
  · have hsize : P.operations.size = Q.operations.size := h.size
    rcases Nat.lt_or_ge pointer.toInt.toNat P.operations.size with hlt | hge
    · have hp := Array.getElem?_eq_getElem hlt
      have hq := Array.getElem?_eq_getElem (hsize ▸ hlt)
      exact .inr ⟨_, _, hp, hq, h.operations _ _ _ hp hq⟩
    · exact .inl ⟨Array.getElem?_eq_none hge, Array.getElem?_eq_none (hsize ▸ hge)⟩

theorem find?_multiplication {opcode : String} (h : opcode ∈ ["MUL", "MULT"]) {entry : Entry}
    (hfind : table.find? opcode = some entry) :
    entry.handler = mul ∧ entry.descriptor.takesLabel = false := by
  simp only [List.mem_cons, List.not_mem_nil, or_false] at h
  rcases h with rfl | rfl
  · cases hfind
    exact ⟨rfl, rfl⟩
  · cases hfind
    exact ⟨rfl, rfl⟩

theorem SameOpcode.entries {a b : String} (h : SameOpcode a b) {entry entry' : Entry}
    (ha : table.find? a = some entry) (hb : table.find? b = some entry') :
    entry'.handler = entry.handler ∧
      entry'.descriptor.takesLabel = entry.descriptor.takesLabel := by
  rcases h with rfl | ⟨hma, hmb⟩
  · obtain rfl := Option.some.inj (ha.symm.trans hb)
    exact ⟨rfl, rfl⟩
  · obtain ⟨hmul, hlabel⟩ := find?_multiplication hma ha
    obtain ⟨hmul', hlabel'⟩ := find?_multiplication hmb hb
    exact ⟨hmul'.trans hmul.symm, hlabel'.trans hlabel.symm⟩

end Ram

theorem Descriptor.Shapes.isSome_target {descriptor : Descriptor} {instruction : Instruction}
    (h : descriptor.Shapes instruction) :
    instruction.target.isSome = descriptor.takesLabel := by
  cases hl : descriptor.takesLabel with
  | true => exact (h.jump hl).2
  | false =>
    cases hn : descriptor.takesNumber with
    | true => rw [(h.number hl hn).1]; rfl
    | false => rw [(h.bare hl hn).2]; rfl

namespace Ram

section
variable {P Q : Program} {p q : Operation}

/-- Loaded operations that mean the same are executed by one handler, which is asked for the
same by both. -/
theorem SameMeaning.handled (h : SameMeaning P Q p q) (hP : P.ShapedBy table)
    (hQ : Q.ShapedBy table) (hp : p ∈ P.operations) (hq : q ∈ Q.operations) :
    Operation.AsksSame P Q p q ∧ ∃ entry ∈ entries, ∃ entry' : Entry,
      table.find? p.opcode = some entry ∧ table.find? q.opcode = some entry' ∧
      entry'.handler = entry.handler := by
  obtain ⟨entry, hfind, hshapes⟩ := hP p hp
  obtain ⟨entry', hfind', hshapes'⟩ := hQ q hq
  obtain ⟨hhandler, hlabel⟩ := h.opcode.entries hfind hfind'
  refine ⟨⟨h.value, h.mode, ?_⟩, entry, OpcodeTable.mem_of_find? hfind, entry', hfind, hfind',
    hhandler⟩
  -- The operand of a jump is a target; no other operation has one.
  have hboth : q.target.isSome = p.target.isSome := by
    rw [hshapes.isSome_target, hshapes'.isSome_target, hlabel]
  cases ha : p.target with
  | none =>
    have hb : q.target = none := by simpa [ha] using hboth
    rw [hb]
    rfl
  | some a =>
    rw [ha] at hboth
    obtain ⟨b, hb⟩ := Option.isSome_iff_exists.mp hboth
    rw [hb, Option.map_some, Option.map_some, h.target a b ha hb]

theorem SameMeaning.dispatch (h : SameMeaning P Q p q) (hsize : P.size = Q.size)
    (hP : P.ShapedBy table) (hQ : Q.ShapedBy table) (hp : p ∈ P.operations)
    (hq : q ∈ Q.operations) (w : Workspace) :
    Action.Alike (table.dispatch P p w) (table.dispatch Q q w) := by
  obtain ⟨hasks, entry, hmem, entry', hfind, hfind', hhandler⟩ := h.handled hP hQ hp hq
  have halike := entries_goByMeaning entry hmem hsize hasks w
  rw [OpcodeTable.dispatch_apply table P p hfind, OpcodeTable.dispatch_apply table Q q hfind',
    hhandler]
  generalize entry.handler P p w = r at halike
  generalize entry.handler Q q w = r' at halike
  cases halike with
  | ok line after => exact .ok line after
  | error after hkind =>
    exact .error after (by rw [Fault.kind_atOperation, Fault.kind_atOperation, hkind])

end

end Ram

/-- Two outcomes are the same, or both are failures of one kind. -/
inductive Outcome.Alike : Outcome → Outcome → Prop
  | finished (lines : List String) : Alike (.finished lines) (.finished lines)
  | failed {fault fault' : Fault} (kind : fault'.kind = fault.kind) :
      Alike (.failed fault) (.failed fault')
  | abandoned : Alike .abandoned .abandoned
  | unfinished (lines : List String) : Alike (.unfinished lines) (.unfinished lines)

theorem Outcome.Alike.refl (outcome : Outcome) : Outcome.Alike outcome outcome := by
  cases outcome with
  | finished lines => exact .finished lines
  | failed fault => exact .failed rfl
  | abandoned => exact .abandoned
  | unfinished lines => exact .unfinished lines

namespace Session

/-- Two answers to a step are the same, or both are faults of one kind. -/
inductive SameAnswer : Except Fault (Option String) → Except Fault (Option String) → Prop
  | ok (line : Option String) : SameAnswer (.ok line) (.ok line)
  | error {fault fault' : Fault} (kind : fault'.kind = fault.kind) :
      SameAnswer (.error fault) (.error fault')

/-- The session with another program in the place of its own. -/
def onProgram (s : Session) (program : Program) : Session :=
  { s with program := program }

/-- A program that means the same as the session's own; both were loaded. -/
structure Exchangeable (s : Session) (Q : Program) : Prop extends RamLoaded s where
  other : Q.ShapedBy Ram.table
  same : Ram.MeanSame s.program Q

section
variable {s t : Session} {Q : Program}

theorem Exchangeable.kept (h : Exchangeable s Q) (hk : Kept s t) : Exchangeable t Q :=
  ⟨h.toRamLoaded.kept hk, h.other, hk.program ▸ h.same⟩

theorem Exchangeable.hasNext (h : Exchangeable s Q) : (s.onProgram Q).hasNext = s.hasNext := by
  change (Q.at? s.memory.instructionPointer).isSome =
    (s.program.at? s.memory.instructionPointer).isSome
  rcases h.same.at? s.memory.instructionPointer with ⟨hp, hq⟩ | ⟨p, q, hp, hq, _⟩
  · rw [hp, hq]
  · rw [hp, hq]
    rfl

/-- Steps in programs that mean the same give the same answer and leave the same. -/
theorem Exchangeable.step (h : Exchangeable s Q) :
    SameAnswer s.step.1 (s.onProgram Q).step.1 ∧
      (s.onProgram Q).step.2 = s.step.2.onProgram Q := by
  have hl : (s.onProgram Q).spentLimit? = s.spentLimit? := rfl
  have hnext : (s.onProgram Q).next? = Q.at? s.memory.instructionPointer := rfl
  have hown : s.next? = s.program.at? s.memory.instructionPointer := rfl
  unfold Session.step
  rw [hnext, hown, hl]
  rcases h.same.at? s.memory.instructionPointer with ⟨hp, hq⟩ | ⟨p, q, hp, hq, hsame⟩
  · simp only [hp, hq]
    refine ⟨.error ?_, trivial⟩
    simp [outOfRange, Problem.fault, Problem.kind]
  · simp only [hp, hq]
    cases s.spentLimit? with
    | some limit =>
      refine ⟨.error ?_, rfl⟩
      simp only [limitFault, Fault.kind_atOperation]
    | none =>
      have hdispatch := hsame.dispatch h.same.size h.shaped h.other (Program.mem_of_at? hp)
        (Program.mem_of_at? hq) s.workspace
      have htable : (s.onProgram Q).table = Ram.table := h.ram
      have hspace : (s.onProgram Q).workspace = s.workspace := rfl
      have hprogram : (s.onProgram Q).program = Q := rfl
      simp only [h.ram, htable, hspace, hprogram]
      generalize Ram.table.dispatch s.program p s.workspace = r at hdispatch
      generalize Ram.table.dispatch Q q s.workspace = r' at hdispatch
      cases hdispatch with
      | ok line w => exact ⟨.ok line, rfl⟩
      | error w hkind => exact ⟨.error hkind, rfl⟩

theorem Exchangeable.step_ok (h : Exchangeable s Q) {line : Option String}
    (hstep : s.step = (.ok line, t)) : (s.onProgram Q).step = (.ok line, t.onProgram Q) := by
  obtain ⟨hanswer, hafter⟩ := h.step
  rw [hstep] at hanswer hafter
  refine Prod.ext ?_ hafter
  generalize (s.onProgram Q).step.1 = answer at hanswer
  cases hanswer
  rfl

theorem Exchangeable.step_error (h : Exchangeable s Q) {fault : Fault}
    (hstep : s.step = (.error fault, t)) :
    ∃ fault', fault'.kind = fault.kind ∧
      (s.onProgram Q).step = (.error fault', t.onProgram Q) := by
  obtain ⟨hanswer, hafter⟩ := h.step
  rw [hstep] at hanswer hafter
  generalize hother : (s.onProgram Q).step.1 = answer at hanswer
  cases hanswer with
  | error hkind => exact ⟨_, hkind, Prod.ext hother hafter⟩

theorem Exchangeable.stepMany (h : Exchangeable s Q) (k : Nat) :
    List.Forall₂ SameAnswer (s.stepMany k).1 ((s.onProgram Q).stepMany k).1 ∧
      ((s.onProgram Q).stepMany k).2 = (s.stepMany k).2.onProgram Q ∧
      ((s.onProgram Q).stepMany k).2.hasNext = (s.stepMany k).2.hasNext := by
  induction k generalizing s with
  | zero => exact ⟨.nil, rfl, h.hasNext⟩
  | succ k ih =>
    obtain ⟨r, t, hstep⟩ : ∃ r t, s.step = (r, t) := ⟨_, _, rfl⟩
    have ht := h.kept (step_kept hstep)
    cases r with
    | error fault =>
      obtain ⟨fault', hkind, hstep'⟩ := h.step_error hstep
      simp only [Session.stepMany, hstep, hstep']
      exact ⟨.cons (.error hkind) .nil, trivial, ht.hasNext⟩
    | ok line =>
      obtain ⟨hanswers, hlast, hnext⟩ := ih ht
      simp only [Session.stepMany, hstep, h.step_ok hstep]
      exact ⟨.cons (.ok line) hanswers, hlast, hnext⟩

theorem Underway.onProgram (hu : Underway s) : Underway (s.onProgram Q) :=
  ⟨hu.running, hu.unasked⟩

theorem Exchangeable.proceed {pauses : Bool} {signals : Nat → Signal} {fuel taken : Nat}
    {emitted : List String} (h : Exchangeable s Q) (hu : Underway s) :
    Outcome.Alike (proceed pauses signals fuel taken emitted s).1
        (proceed pauses signals fuel taken emitted (s.onProgram Q)).1 ∧
      (proceed pauses signals fuel taken emitted (s.onProgram Q)).2 =
        (proceed pauses signals fuel taken emitted s).2.onProgram Q := by
  induction fuel, taken, emitted, s, hu using proceed_induction pauses signals with
  | atEnd fuel taken emitted s hu hn =>
    rw [proceed_end hn, proceed_end (h.hasNext.trans hn)]
    exact ⟨.finished _, rfl⟩
  | spent taken emitted s hu hn =>
    rw [proceed_spent hn, proceed_spent (h.hasNext.trans hn)]
    exact ⟨.unfinished _, rfl⟩
  | fails fuel taken emitted s hu fault t hn hstep =>
    obtain ⟨fault', hkind, hstep'⟩ := h.step_error hstep
    rw [proceed_fail hu hn hstep, proceed_fail hu.onProgram (h.hasNext.trans hn) hstep']
    exact ⟨.failed hkind, rfl⟩
  | ended fuel taken emitted s hu line t hstep hs =>
    rw [proceed_ended hu hstep hs, proceed_ended hu.onProgram (h.step_ok hstep) hs]
    exact ⟨.refl _, rfl⟩
  | round fuel taken emitted s hu line t hut hstep hs ih =>
    rw [proceed_round hu hstep hs, proceed_round hu.onProgram (h.step_ok hstep) hs]
    exact ih (h.kept (step_kept hstep))

end

/-- Another program in the place of the session's own makes no difference that can be seen but in
the texts of faults. After every number of steps the answers are the same and so is all that
the session holds; and so it is for runs, paced or not, whatever their input, signals and fuel. -/
structure SameExecution (s : Session) (Q : Program) : Prop where
  steps : ∀ k, List.Forall₂ SameAnswer (s.stepMany k).1 ((s.onProgram Q).stepMany k).1 ∧
    ((s.onProgram Q).stepMany k).2 = (s.stepMany k).2.onProgram Q ∧
    ((s.onProgram Q).stepMany k).2.hasNext = (s.stepMany k).2.hasNext
  run : ∀ inputs signals limit,
    Outcome.Alike (s.run inputs signals limit).1 ((s.onProgram Q).run inputs signals limit).1 ∧
    ((s.onProgram Q).run inputs signals limit).2 =
      (s.run inputs signals limit).2.onProgram Q
  runPaced : ∀ inputs signals limit,
    Outcome.Alike (s.runPaced inputs signals limit).1
      ((s.onProgram Q).runPaced inputs signals limit).1 ∧
    ((s.onProgram Q).runPaced inputs signals limit).2 =
      (s.runPaced inputs signals limit).2.onProgram Q

theorem Exchangeable.sameExecution {s : Session} {Q : Program} (h : Exchangeable s Q) :
    SameExecution s Q := by
  have hstart : ∀ inputs, Exchangeable (s.start inputs) Q := by
    intro inputs
    exact ⟨⟨h.ram, h.shaped⟩, h.other, h.same⟩
  refine ⟨h.stepMany, ?_, ?_⟩
  · intro inputs signals limit
    exact (hstart inputs).proceed (underway_start s inputs)
  · intro inputs signals limit
    exact (hstart inputs).proceed (underway_start s inputs)

end Session

end RegisterMachine

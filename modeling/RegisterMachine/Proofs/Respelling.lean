import RegisterMachine.Proofs.LineByLine
import RegisterMachine.Proofs.ProgramMeaning

namespace RegisterMachine

/-- Two instructions differ in the names of labels, and in which name of one opcode they use. -/
structure Instruction.Renamed (rename : String → String) (i j : Instruction) : Prop where
  opcode : Ram.SameOpcode i.opcode j.opcode
  label : j.label = i.label.map rename
  value : j.value = i.value
  mode : j.mode = i.mode
  target : j.target = i.target.map rename

/-- The names that a program defines or jumps to. -/
def Program.names (program : Program) : List String :=
  program.labels ++ program.operations.toList.filterMap fun operation => operation.target

/-- The operations of two programs differ, one by one, as `rename` says. -/
def Program.Renamed (rename : String → String) (P Q : Program) : Prop :=
  List.Forall₂ (fun p q => Instruction.Renamed rename p.toInstruction q.toInstruction)
    P.operations.toList Q.operations.toList

theorem findIdx?_eq_of_forall₂ {α β : Type} {R : α → β → Prop} {p : α → Bool}
    {q : β → Bool} {xs : List α} {ys : List β} (h : List.Forall₂ R xs ys)
    (hpq : ∀ x ∈ xs, ∀ y, R x y → q y = p x) : ys.findIdx? q = xs.findIdx? p := by
  induction h with
  | nil => rfl
  | @cons x y xs ys hxy _ ih =>
    rw [List.findIdx?_cons, List.findIdx?_cons, hpq x (List.mem_cons_self) y hxy,
      ih fun x' hx' => hpq x' (List.mem_cons_of_mem x hx')]

theorem Program.findLabel_eq (program : Program) (label : String) :
    program.findLabel label =
      program.operations.toList.findIdx? fun operation => operation.label == some label := by
  rw [findLabel, ← List.findIdx?_toArray, Array.toArray_toList]

namespace Program.Renamed

variable {rename : String → String} {P Q : Program}

/-- The first operation with a label is the first one with its new name, if no other label of the
program takes this name. -/
theorem findLabel (h : P.Renamed rename Q) {label : String}
    (hinj : ∀ other ∈ P.labels, rename other = rename label → other = label) :
    Q.findLabel (rename label) = P.findLabel label := by
  rw [findLabel_eq, findLabel_eq]
  apply findIdx?_eq_of_forall₂ h
  intro p hp q hpq
  rw [hpq.label]
  cases hlabel : p.label with
  | none => rfl
  | some other =>
    have hmem : other ∈ P.labels := List.mem_filterMap.mpr ⟨p, hp, hlabel⟩
    rw [Option.map_some, Bool.eq_iff_iff, beq_iff_eq, beq_iff_eq, Option.some_inj,
      Option.some_inj]
    exact ⟨hinj other hmem, congrArg rename⟩

theorem meanSame (h : P.Renamed rename Q)
    (hinj : ∀ a ∈ P.names, ∀ b ∈ P.names, rename a = rename b → a = b) : Ram.MeanSame P Q where
  size := by
    have hlength := h.length_eq
    rwa [Array.length_toList, Array.length_toList] at hlength
  operations := by
    intro i p q hp hq
    rw [← Array.getElem?_toList] at hp hq
    have hrenamed := (List.forall₂_iff_get.mp h).2
    obtain ⟨hi, rfl⟩ := List.getElem?_eq_some_iff.mp hp
    obtain ⟨hi', rfl⟩ := List.getElem?_eq_some_iff.mp hq
    have hpq := hrenamed i hi hi'
    refine ⟨hpq.opcode, hpq.value, hpq.mode, ?_⟩
    intro a b ha hb
    have hname : a ∈ P.names := List.mem_append_right _
      (List.mem_filterMap.mpr ⟨_, List.getElem_mem hi, ha⟩)
    obtain rfl : b = rename a := by
      have htarget := hpq.target
      simp only [List.get_eq_getElem] at htarget
      rw [ha, hb] at htarget
      exact Option.some.inj htarget
    apply h.findLabel
    intro other hother heq
    exact hinj other (List.mem_append_left _ hother) a hname heq

end Program.Renamed

namespace Ram

/-- Two mnemonics name one instruction, in whatever case they are written. -/
def SameMnemonic (a b : String) : Prop :=
  SameOpcode (Text.foldCase a) (Text.foldCase b)

/-- What follows a mnemonic once labels are renamed: only jumps have a label there. -/
def renameArguments (rename : String → String) (mnemonic : String) (arguments : List String) :
    List String :=
  if (table.resolve? mnemonic).any (·.takesLabel) then arguments.map rename else arguments

/-- The words of two lines say the same once labels are renamed: they name one instruction and
give it the same arguments, and the label before it, if there is one, is renamed. -/
inductive SameWords (rename : String → String) : List String → List String → Prop
  | plain {mnemonic mnemonic' : String} (arguments : List String)
      (known : table.Known mnemonic) (same : SameMnemonic mnemonic mnemonic') :
      SameWords rename (mnemonic :: arguments)
        (mnemonic' :: renameArguments rename mnemonic arguments)
  | labelled {word word' name mnemonic mnemonic' : String} (arguments : List String)
      (unknown : ¬ table.Known word) (unknown' : ¬ table.Known word')
      (labels : Source.Labels word name) (labels' : Source.Labels word' (rename name))
      (named : name ≠ "") (named' : rename name ≠ "")
      (known : table.Known mnemonic) (same : SameMnemonic mnemonic mnemonic') :
      SameWords rename (word :: mnemonic :: arguments)
        (word' :: mnemonic' :: renameArguments rename mnemonic arguments)

/-- Two readings both fail, or give instructions that differ in the names of labels. -/
inductive SameReading (rename : String → String) :
    Except Problem Instruction → Except Problem Instruction → Prop
  | error (problem problem' : Problem) : SameReading rename (.error problem) (.error problem')
  | ok {i j : Instruction} (renamed : Instruction.Renamed rename i j) :
      SameReading rename (.ok i) (.ok j)

theorem resolve?_eq_of_foldCase {a b : String} (h : Text.foldCase a = Text.foldCase b) :
    table.resolve? a = table.resolve? b := by
  have hkey : table.policy.key a = table.policy.key b := h
  rw [OpcodeTable.resolve?, OpcodeTable.resolve?, OpcodeTable.find?, OpcodeTable.find?, hkey]

/-- The two names of multiplication have one description, but for the name. -/
theorem resolve?_multiplication {mnemonic : String}
    (h : Text.foldCase mnemonic ∈ ["MUL", "MULT"]) :
    ∃ name ∈ ["MUL", "MULT"], table.resolve? mnemonic =
      some (((Descriptor.numeric "MUL" true true).described
        "Multiply the accumulator by the operand").renamed name) := by
  simp only [List.mem_cons, List.not_mem_nil, or_false] at h
  rcases h with h | h
  · have hfold : Text.foldCase mnemonic = Text.foldCase "MUL" := h.trans (by decide)
    refine ⟨"MUL", by decide, ?_⟩
    rw [resolve?_eq_of_foldCase hfold]
    rfl
  · have hfold : Text.foldCase mnemonic = Text.foldCase "MULT" := h.trans (by decide)
    refine ⟨"MULT", by decide, ?_⟩
    rw [resolve?_eq_of_foldCase hfold]
    rfl

theorem SameMnemonic.resolve? {a b : String} (h : SameMnemonic a b) (hk : table.Known a) :
    ∃ descriptor opcode, table.resolve? a = some descriptor ∧
      table.resolve? b = some (descriptor.renamed opcode) ∧
      SameOpcode descriptor.mnemonic opcode := by
  rcases h with hfold | ⟨ha, hb⟩
  · obtain ⟨descriptor, hdeclares⟩ := hk
    have hresolve := OpcodeTable.resolve?_eq_some_iff.mpr hdeclares
    refine ⟨descriptor, descriptor.mnemonic, hresolve, ?_, .inl rfl⟩
    rw [← resolve?_eq_of_foldCase hfold, hresolve]
    rfl
  · obtain ⟨name, hname, hresolve⟩ := resolve?_multiplication ha
    obtain ⟨name', hname', hresolve'⟩ := resolve?_multiplication hb
    exact ⟨_, name', hresolve, hresolve', .inr ⟨hname, hname'⟩⟩

theorem readNumber_renamed (descriptor : Descriptor) (opcode argument : String) :
    (∃ problem problem', Source.readNumber descriptor argument = .error problem ∧
        Source.readNumber (descriptor.renamed opcode) argument = .error problem') ∨
      ∃ number, Source.readNumber descriptor argument = .ok number ∧
        Source.readNumber (descriptor.renamed opcode) argument = .ok number := by
  have hallows : ∀ mode, (descriptor.renamed opcode).allows mode = descriptor.allows mode := by
    intro mode
    cases mode <;> rfl
  simp only [Source.readNumber, hallows]
  split
  · split
    · exact .inl ⟨_, _, rfl, rfl⟩
    · split
      · exact .inl ⟨_, _, rfl, rfl⟩
      · exact .inr ⟨_, rfl, rfl⟩
  · exact .inl ⟨_, _, rfl, rfl⟩

/-- Under another name an opcode reads the same arguments, with a target renamed. -/
theorem readArguments_renamed (rename : String → String) {descriptor : Descriptor}
    {opcode : String} (hop : SameOpcode descriptor.mnemonic opcode) (arguments : List String) :
    SameReading rename (Source.readArguments descriptor arguments)
      (Source.readArguments (descriptor.renamed opcode)
        (if descriptor.takesLabel then arguments.map rename else arguments)) := by
  have hlabel : (descriptor.renamed opcode).takesLabel = descriptor.takesLabel := rfl
  have hnumber : (descriptor.renamed opcode).takesNumber = descriptor.takesNumber := rfl
  unfold Source.readArguments
  simp only [hlabel, hnumber]
  split
  · match arguments with
    | [] => exact .error _ _
    | [target] => exact .ok ⟨hop, rfl, rfl, rfl, rfl⟩
    | _ :: _ :: _ => exact .error _ _
  · split
    · match arguments with
      | [] => exact .error _ _
      | [argument] =>
        rcases readNumber_renamed descriptor opcode argument with
          ⟨_, _, hread, hread'⟩ | ⟨number, hread, hread'⟩
        · simp only [hread, hread']
          exact .error _ _
        · simp only [hread, hread']
          exact .ok ⟨hop, rfl, rfl, rfl, rfl⟩
      | _ :: _ :: _ => exact .error _ _
    · match arguments with
      | [] => exact .ok ⟨hop, rfl, rfl, rfl, rfl⟩
      | _ :: _ => exact .error _ _

theorem readOpcode_renamed (rename : String → String) {mnemonic mnemonic' : String}
    (hk : table.Known mnemonic) (h : SameMnemonic mnemonic mnemonic') (arguments : List String) :
    SameReading rename (Source.readOpcode table mnemonic arguments)
      (Source.readOpcode table mnemonic' (renameArguments rename mnemonic arguments)) := by
  obtain ⟨descriptor, opcode, hresolve, hresolve', hop⟩ := h.resolve? hk
  simp only [Source.readOpcode, renameArguments, hresolve, hresolve', Option.any_some]
  exact readArguments_renamed rename hop arguments

theorem SameReading.labelled {rename : String → String} {r r' : Except Problem Instruction}
    (h : SameReading rename r r') (name : String) :
    SameReading rename (r.map fun i => { i with label := some name })
      (r'.map fun i => { i with label := some (rename name) }) := by
  cases h with
  | error problem problem' => exact .error _ _
  | ok renamed =>
    exact .ok ⟨renamed.opcode, rfl, renamed.value, renamed.mode, renamed.target⟩

theorem SameWords.readWords {rename : String → String} {words words' : List String}
    (h : SameWords rename words words') :
    SameReading rename (Source.readWords table words) (Source.readWords table words') := by
  cases h with
  | plain arguments known same =>
    obtain ⟨descriptor, opcode, _, hresolve', _⟩ := same.resolve? known
    have known' : table.Known _ := ⟨_, OpcodeTable.resolve?_eq_some_iff.mp hresolve'⟩
    rw [Source.readWords_first known, Source.readWords_first known']
    exact readOpcode_renamed rename known same arguments
  | labelled arguments unknown unknown' labels labels' named named' known same =>
    rw [Source.readWords_second unknown labels named,
      Source.readWords_second unknown' labels' named']
    exact (readOpcode_renamed rename known same arguments).labelled _

/-- Two sources say the same once labels are renamed: line by line they have the same words, but
for lines, in both, that bring no operation into the program. -/
inductive Respelled (rename : String → String) (marker marker' : Char) :
    List String → List String → Prop
  | nil : Respelled rename marker marker' [] []
  | left {line : String} {lines lines' : List String}
      (idle : ∀ number operation,
        Source.readLine table marker line number ≠ some (.ok operation))
      (rest : Respelled rename marker marker' lines lines') :
      Respelled rename marker marker' (line :: lines) lines'
  | right {line' : String} {lines lines' : List String}
      (idle : ∀ number operation,
        Source.readLine table marker' line' number ≠ some (.ok operation))
      (rest : Respelled rename marker marker' lines lines') :
      Respelled rename marker marker' lines (line' :: lines')
  | both {line line' : String} {lines lines' : List String}
      (same : SameWords rename (Text.words (Source.stripComment marker line))
        (Text.words (Source.stripComment marker' line')))
      (rest : Respelled rename marker marker' lines lines') :
      Respelled rename marker marker' (line :: lines) (line' :: lines')

section
variable {rename : String → String} {marker marker' : Char} {line line' : String}

theorem operations_of_idle {number : Nat}
    (h : ∀ operation, Source.readLine table marker line number ≠ some (.ok operation)) :
    Source.operations (Source.readLine table marker line number).toList = [] := by
  cases hread : Source.readLine table marker line number with
  | none => rfl
  | some entry =>
    cases entry with
    | ok operation => exact absurd hread (h operation)
    | error diagnostic => rfl

/-- A line with words brings the operation that they are read as, if they are. -/
theorem operations_of_words {number : Nat}
    (h : Text.words (Source.stripComment marker line) ≠ []) :
    (Source.operations (Source.readLine table marker line number).toList).map
        Operation.toInstruction =
      (Source.readWords table (Text.words (Source.stripComment marker line))).toOption.toList := by
  have htext : Source.stripComment marker line ≠ "" := by
    intro hempty
    rw [hempty] at h
    exact h rfl
  simp only [Source.readLine, if_neg htext, Source.parseOperation]
  cases Source.readWords table (Text.words (Source.stripComment marker line)) <;> rfl

theorem SameWords.ne_nil {words words' : List String} (h : SameWords rename words words') :
    words ≠ [] ∧ words' ≠ [] := by
  cases h <;> exact ⟨List.cons_ne_nil _ _, List.cons_ne_nil _ _⟩

theorem SameWords.operations
    (h : SameWords rename (Text.words (Source.stripComment marker line))
      (Text.words (Source.stripComment marker' line'))) (number number' : Nat) :
    List.Forall₂ (Instruction.Renamed rename)
      ((Source.operations (Source.readLine table marker line number).toList).map
        Operation.toInstruction)
      ((Source.operations (Source.readLine table marker' line' number').toList).map
        Operation.toInstruction) := by
  rw [operations_of_words h.ne_nil.1, operations_of_words h.ne_nil.2]
  have hread := h.readWords
  generalize Source.readWords table (Text.words (Source.stripComment marker line)) = r at hread
  generalize Source.readWords table (Text.words (Source.stripComment marker' line')) = r' at hread
  cases hread with
  | error problem problem' => exact .nil
  | ok renamed => exact .cons renamed .nil

theorem Respelled.operations {lines lines' : List String}
    (h : Respelled rename marker marker' lines lines') (start start' : Nat) :
    List.Forall₂ (Instruction.Renamed rename)
      ((Source.operations (Source.readLines table marker lines start)).map
        Operation.toInstruction)
      ((Source.operations (Source.readLines table marker' lines' start')).map
        Operation.toInstruction) := by
  -- Numbers differ where lines were left out, so both are free.
  induction h generalizing start start' with
  | nil => exact .nil
  | left idle _ ih =>
    rw [Source.readLines_cons, Source.operations_append, operations_of_idle (idle start)]
    exact ih (start + 1) start'
  | right idle _ ih =>
    rw [Source.readLines_cons, Source.operations_append, operations_of_idle (idle start')]
    exact ih start (start' + 1)
  | both same _ ih =>
    rw [Source.readLines_cons, Source.readLines_cons, Source.operations_append,
      Source.operations_append, List.map_append, List.map_append]
    exact List.rel_append (same.operations start start') (ih (start + 1) (start' + 1))

theorem Respelled.renamed {lines lines' : List String}
    (h : Respelled rename marker marker' lines lines') :
    Program.Renamed rename (Source.parseProgram table marker lines).1
      (Source.parseProgram table marker' lines').1 := by
  have hoperations := h.operations 1 1
  rw [List.forall₂_map_left_iff, List.forall₂_map_right_iff] at hoperations
  exact hoperations

end

/-- Behaviour depends on what a program means, not on how it is spelled. A loaded program that
means the same as the session's own shows the same, step by step and run by run. So it is with a
source in which mnemonics are written in other letters or under another name, which has other
texts, blank lines and comments, and where labels have other names, as long as names that differ
stay apart. -/
theorem execution_depends_on_meaning (marker marker' : Char) (lines lines' : List String)
    {s : Session} (hram : s.table = table)
    (hloaded : s.program = (Source.parseProgram table marker lines).1) :
    (MeanSame s.program (Source.parseProgram table marker' lines').1 →
      s.SameExecution (Source.parseProgram table marker' lines').1) ∧
    ∀ rename, Respelled rename marker marker' lines lines' →
      (∀ a ∈ s.program.names, ∀ b ∈ s.program.names, rename a = rename b → a = b) →
      s.SameExecution (Source.parseProgram table marker' lines').1 := by
  have hsame : MeanSame s.program (Source.parseProgram table marker' lines').1 →
      s.SameExecution (Source.parseProgram table marker' lines').1 := by
    intro hmean
    have hown := Session.ramLoaded_of_parseProgram hram hloaded
    have hother := Source.parseProgram_shaped table marker' lines'
    exact Session.Exchangeable.sameExecution ⟨hown, hother, hmean⟩
  refine ⟨hsame, ?_⟩
  intro rename hrespelled hinj
  rw [hloaded] at hinj
  apply hsame
  rw [hloaded]
  exact hrespelled.renamed.meanSame hinj

def tripling : List String := ["# for ever", "again: mul =3", "jump again"]

/-- The same in other letters, with the other name of multiplication and of the label. -/
def triplingOtherwise : List String := ["LOOP Mult =3 # three times", "", "JUMP LOOP"]

def relabelled (name : String) : String :=
  if name = "again" then "LOOP" else name

def tripler : Session where
  machine := "RAM"
  settings := {}
  table := table
  workspace := { memory := ({} : Memory).setAccumulator 2 }
  program := (Source.parseProgram table '#' tripling).1

theorem respelled_tripling : Respelled relabelled '#' '#' tripling triplingOtherwise := by
  have hidle : ∀ line, Source.stripComment '#' line = "" → ∀ number operation,
      Source.readLine table '#' line number ≠ some (.ok operation) := by
    intro line hblank number operation hread
    exact (Source.readLine_eq_ok_iff.mp hread).1 hblank
  have hknown : ∀ word, table.contains word = true → table.Known word :=
    fun _ => OpcodeTable.contains_iff.mp
  have hunknown : ∀ word, table.contains word = false → ¬ table.Known word := by
    intro word hcontains hknown
    rw [OpcodeTable.contains_iff.mpr hknown] at hcontains
    cases hcontains
  have hlabel : Source.Labels "again:" "again" := .inl rfl
  have hlabel' : Source.Labels "LOOP" (relabelled "again") := .inr ⟨rfl, by decide⟩
  have hfirst : SameWords relabelled ["again:", "mul", "=3"] ["LOOP", "Mult", "=3"] :=
    .labelled ["=3"] (hunknown _ (by decide +kernel)) (hunknown _ (by decide +kernel)) hlabel
      hlabel' (by decide) (by decide) (hknown _ (by decide +kernel)) (.inr (by decide))
  have hlast : SameWords relabelled ["jump", "again"] ["JUMP", "LOOP"] :=
    .plain ["again"] (hknown _ (by decide +kernel)) (.inl (by decide))
  refine .left (hidle _ (by decide +kernel)) (.both ?_ (.right (hidle _ (by decide +kernel))
    (.both ?_ .nil)))
  · exact hfirst
  · exact hlast

/-- Both spellings triple what is in the accumulator, time and again. -/
theorem execution_depends_on_meaning_tripling :
    Respelled relabelled '#' '#' tripling triplingOtherwise ∧
    MeanSame tripler.program (Source.parseProgram table '#' triplingOtherwise).1 ∧
    tripler.SameExecution (Source.parseProgram table '#' triplingOtherwise).1 ∧
    ((tripler.onProgram (Source.parseProgram table '#' triplingOtherwise).1).stepMany
      5).2.memory.accumulator = 54 := by
  have hinj : ∀ a ∈ tripler.program.names, ∀ b ∈ tripler.program.names,
      relabelled a = relabelled b → a = b := by
    decide +kernel
  have hmean := respelled_tripling.renamed.meanSame hinj
  have hboth := execution_depends_on_meaning '#' '#' tripling triplingOtherwise
    (s := tripler) rfl rfl
  have hsame := hboth.2 relabelled respelled_tripling hinj
  refine ⟨respelled_tripling, hmean, hboth.1 hmean, ?_⟩
  rw [(hsame.steps 5).2.1]
  decide +kernel

end Ram

end RegisterMachine

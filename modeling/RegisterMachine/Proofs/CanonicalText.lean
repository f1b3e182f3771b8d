import RegisterMachine.Proofs.Layout
import RegisterMachine.Proofs.LoadedPrograms

namespace RegisterMachine

namespace Instruction

/-- The operand of an instruction as it is written: a target, or a number behind its sigil. -/
def operandText (instruction : Instruction) : Option String :=
  match instruction.target with
  | some target => some target
  | none => instruction.value.map fun value =>
    instruction.mode.sigil ++ Text.decimal value.toInt

/-- The opcode and the operand, if there is one. -/
def bodyText (instruction : Instruction) : String :=
  match instruction.operandText with
  | none => instruction.opcode
  | some operand => instruction.opcode ++ " " ++ operand

/-- The line that is written for an instruction. -/
def canonical (instruction : Instruction) : String :=
  match instruction.label with
  | none => instruction.bodyText
  | some label => label ++ ": " ++ instruction.bodyText

end Instruction

/-- An instruction is well formed for a table: it has the operand that the descriptor of its
opcode asks for and nothing else, and its label and target are words. -/
structure OpcodeTable.Admits (table : OpcodeTable) (instruction : Instruction) : Prop where
  declared : ∃ entry ∈ table.entries, entry.descriptor.Shapes instruction
  plain : instruction.value = none → instruction.mode = .registry
  label : ∀ label, instruction.label = some label → Text.IsWord label
  target : ∀ target, instruction.target = some target → Text.IsWord target

/-- No mnemonic ends like a label. -/
def OpcodeTable.Uncoloned (table : OpcodeTable) : Prop :=
  ∀ entry ∈ table.entries, entry.descriptor.mnemonic.toList.getLast? ≠ some ':'

namespace Text

theorem isBlank_of_isDigit {c : Char} (h : c.isDigit = true) : isBlank c = false := by
  simp only [Char.isDigit, Bool.and_eq_true, decide_eq_true_eq, ge_iff_le] at h
  have hlow : 48 ≤ c.toNat := UInt32.le_iff_toNat_le.mp h.1
  have hhigh : c.toNat ≤ 57 := UInt32.le_iff_toNat_le.mp h.2
  simp only [isBlank, Bool.or_eq_false_iff, Bool.and_eq_false_iff, decide_eq_false_iff_not,
    beq_eq_false_iff_ne]
  omega

theorem isWord_decimal (n : Int) : IsWord (decimal n) := by
  refine ⟨?_, ?_⟩
  · intro hempty
    have hnumeral := numeral?_decimal n
    simp [hempty, numeral?, digits?] at hnumeral
  · intro c hc
    by_cases hn : n < 0
    · have htext : (decimal n).toList = '-' :: (natural n.natAbs).toList := by simp [decimal, hn]
      rw [htext] at hc
      rcases List.mem_cons.mp hc with rfl | hc
      · decide
      · exact isBlank_of_isDigit (isDigit_of_mem_natural hc)
    · rw [decimal, if_neg hn] at hc
      exact isBlank_of_isDigit (isDigit_of_mem_natural hc)

theorem isWord_append {s t : String} (hs : ∀ c ∈ s.toList, isBlank c = false)
    (ht : ∀ c ∈ t.toList, isBlank c = false) (hne : s ++ t ≠ "") : IsWord (s ++ t) := by
  refine ⟨hne, ?_⟩
  intro c hc
  rw [String.toList_append] at hc
  rcases List.mem_append.mp hc with hc | hc
  · exact hs c hc
  · exact ht c hc

/-- Folding makes no letter a colon. -/
theorem toUpper_eq_colon {c : Char} (h : c.toUpper = ':') : c = ':' := by
  unfold Char.toUpper at h
  split at h
  · rename_i hc
    have hlow : 97 ≤ c.val.toNat := UInt32.le_iff_toNat_le.mp hc.1
    have hhigh : c.val.toNat ≤ 122 := UInt32.le_iff_toNat_le.mp hc.2
    have hnat := congrArg (fun d : Char => d.val.toNat) h
    simp only [UInt32.toNat_add] at hnat
    have hshift : ('A'.val - 'a'.val).toNat = 4294967264 := by decide
    have hcolon : ':'.val.toNat = 58 := by decide
    rw [hshift, hcolon] at hnat
    omega
  · exact h

end Text

theorem CasePolicy.getLast?_of_key_eq {policy : CasePolicy} {mnemonic label : String}
    (h : policy.key mnemonic = policy.key (label ++ ":")) :
    mnemonic.toList.getLast? = some ':' := by
  cases policy with
  | sensitive =>
    have hsame : mnemonic = label ++ ":" := h
    simp [hsame]
  | insensitive =>
    -- Folding goes character by character, so it is the last one that became a colon.
    have hfold := congrArg (fun s => s.toList.getLast?) h
    have hcolon : (mnemonic.toList.getLast?).map Char.toUpper = some ':' := by
      simpa [CasePolicy.key] using hfold
    obtain ⟨c, hlast, hupper⟩ := Option.map_eq_some_iff.mp hcolon
    rw [hlast, Text.toUpper_eq_colon hupper]

/-- A label with its colon is no mnemonic. -/
theorem OpcodeTable.Uncoloned.not_known {table : OpcodeTable} (h : table.Uncoloned)
    (label : String) : ¬ table.Known (label ++ ":") := by
  rintro ⟨_, entry, hmem, _, hkey⟩
  exact h entry hmem (CasePolicy.getLast?_of_key_eq hkey)

section
variable {table : OpcodeTable} {instruction : Instruction}

namespace OpcodeTable.Admits

theorem opcode (h : table.Admits instruction) : Text.IsWord instruction.opcode := by
  obtain ⟨entry, hmem, hshapes⟩ := h.declared
  rw [hshapes.opcode]
  exact (sound_of_mem hmem).word

theorem operandText (h : table.Admits instruction) {operand : String}
    (ho : instruction.operandText = some operand) : Text.IsWord operand := by
  unfold Instruction.operandText at ho
  split at ho
  · rename_i target htarget
    cases ho
    exact h.target _ htarget
  · obtain ⟨value, _, rfl⟩ := Option.map_eq_some_iff.mp ho
    have hnumber := Text.isWord_decimal value.toInt
    refine Text.isWord_append ?_ hnumber.2 (by simp [hnumber.1])
    cases instruction.mode <;> exact Text.solid_of_all rfl

theorem words_bodyText (h : table.Admits instruction) :
    Text.words instruction.bodyText =
      instruction.opcode :: instruction.operandText.toList := by
  unfold Instruction.bodyText
  cases ho : instruction.operandText with
  | none => exact Text.words_eq_singleton h.opcode
  | some operand =>
    rw [Text.words_append_space h.opcode, Text.words_eq_singleton (h.operandText ho)]
    rfl

theorem trimmed_bodyText (h : table.Admits instruction) : Text.Trimmed instruction.bodyText := by
  unfold Instruction.bodyText
  cases ho : instruction.operandText with
  | none => exact h.opcode.trimmed
  | some operand => exact .append_space h.opcode (h.operandText ho).trimmed

theorem colon {label : String} (h : table.Admits instruction)
    (hl : instruction.label = some label) : Text.IsWord (label ++ ":") := by
  have hlabel := h.label label hl
  exact Text.isWord_append hlabel.2 (Text.solid_of_all rfl) (by simp)

theorem canonical_eq {label : String} (hl : instruction.label = some label) :
    instruction.canonical = label ++ ":" ++ " " ++ instruction.bodyText := by
  unfold Instruction.canonical
  rw [hl]
  exact String.toList_inj.mp (by simp)

theorem words_canonical (h : table.Admits instruction) :
    Text.words instruction.canonical =
      (instruction.label.map (· ++ ":")).toList ++
        instruction.opcode :: instruction.operandText.toList := by
  cases hl : instruction.label with
  | none =>
    have hbody : instruction.canonical = instruction.bodyText := by
      unfold Instruction.canonical
      rw [hl]
    rw [hbody, h.words_bodyText]
    rfl
  | some label =>
    rw [canonical_eq hl, Text.words_append_space (h.colon hl), h.words_bodyText]
    rfl

theorem trimmed_canonical (h : table.Admits instruction) :
    Text.Trimmed instruction.canonical := by
  cases hl : instruction.label with
  | none =>
    unfold Instruction.canonical
    rw [hl]
    exact h.trimmed_bodyText
  | some label =>
    rw [canonical_eq hl]
    exact .append_space (h.colon hl) h.trimmed_bodyText

theorem fits (h : table.Admits instruction) :
    ∃ descriptor, table.Declares instruction.opcode descriptor ∧
      Source.Fits descriptor instruction.operandText.toList { instruction with label := none } := by
  obtain ⟨entry, hmem, hshapes⟩ := h.declared
  have hplain := h.plain
  obtain ⟨opcode, label, value, mode, target⟩ := instruction
  obtain rfl : opcode = entry.descriptor.mnemonic := hshapes.opcode
  refine ⟨entry.descriptor, ⟨entry, hmem, rfl, rfl⟩, ?_⟩
  cases hlabel : entry.descriptor.takesLabel with
  | true =>
    obtain ⟨hvalue, htarget⟩ := hshapes.jump hlabel
    obtain ⟨name, rfl⟩ := Option.isSome_iff_exists.mp htarget
    obtain rfl : value = none := hvalue
    obtain rfl : mode = .registry := hplain rfl
    exact .jump name hlabel
  | false =>
    cases hnumber : entry.descriptor.takesNumber with
    | true =>
      obtain ⟨htarget, hallows, number, hvalue, hsign⟩ := hshapes.number hlabel hnumber
      obtain rfl : target = none := htarget
      obtain rfl : value = some number := hvalue
      exact .number hnumber hallows (Text.numeral?_decimal number.toInt) hsign
    | false =>
      obtain ⟨hvalue, htarget⟩ := hshapes.bare hlabel hnumber
      obtain rfl : value = none := hvalue
      obtain rfl : target = none := htarget
      obtain rfl : mode = .registry := hplain rfl
      exact .bare hlabel hnumber

/-- The line for a well-formed instruction says just that instruction. -/
theorem sentence (h : table.Admits instruction) (hc : table.Uncoloned) :
    Source.Sentence table (Text.words instruction.canonical) instruction := by
  obtain ⟨descriptor, hknown, hfits⟩ := h.fits
  rw [h.words_canonical]
  have hlabel := h.label
  obtain ⟨opcode, label, value, mode, target⟩ := instruction
  cases label with
  | none => exact .plain hknown hfits
  | some label =>
    exact .labelled (hc.not_known label) (.inl rfl) (hlabel label rfl).1 hknown hfits

theorem parseOperation_eq (h : table.Admits instruction) (hc : table.Uncoloned) (number : Nat) :
    Source.parseOperation table instruction.canonical number =
      .ok { instruction with raw := instruction.canonical, line := number } :=
  Source.parseOperation_eq_ok_iff.mpr ⟨instruction, h.sentence hc, rfl⟩

/-- Different instructions are not written alike. -/
theorem canonical_injective {other : Instruction} (h : table.Admits instruction)
    (h' : table.Admits other) (hc : table.Uncoloned)
    (heq : instruction.canonical = other.canonical) : instruction = other := by
  have hread := (h.sentence hc).readWords_eq
  rw [heq, (h'.sentence hc).readWords_eq] at hread
  exact (Except.ok.inj hread).symm

end OpcodeTable.Admits

end

namespace Source

section
variable {table : OpcodeTable} {descriptor : Descriptor} {instruction : Instruction}
  {words : List String}

theorem Labels.isWord {word name : String} (h : Labels word name) (hn : name ≠ "")
    (hw : Text.IsWord word) : Text.IsWord name := by
  refine ⟨hn, ?_⟩
  intro c hc
  rcases h with rfl | ⟨rfl, _⟩
  · exact hw.2 c (by simp [hc])
  · exact hw.2 c hc

/-- Arguments give an instruction no label, a mode only with a number, and a target that is one of
them. -/
theorem Fits.parts (h : Fits descriptor words instruction) :
    instruction.label = none ∧ (instruction.value = none → instruction.mode = .registry) ∧
      ∀ target, instruction.target = some target → target ∈ words := by
  cases h with
  | jump target label => exact ⟨rfl, fun _ => rfl, by simp⟩
  | bare label number => exact ⟨rfl, fun _ => rfl, by simp⟩
  | number number allowed numeral sign => exact ⟨rfl, by simp, by simp⟩

/-- What is read is well formed. -/
theorem Sentence.admits (h : Sentence table words instruction)
    (hw : ∀ word ∈ words, Text.IsWord word) : table.Admits instruction := by
  cases h with
  | plain known fits =>
    have hshapes := readArguments_shapes (fits.readArguments_eq known.sound)
    obtain ⟨hlabel, hplain, htarget⟩ := fits.parts
    obtain ⟨entry, hmem, rfl, _⟩ := known
    refine ⟨⟨entry, hmem, hshapes⟩, hplain, ?_, ?_⟩
    · intro label hl
      rw [hlabel] at hl
      cases hl
    · intro target ht
      exact hw target (List.mem_cons_of_mem _ (htarget target ht))
  | @labelled word name _ _ _ plain _ labels named known fits =>
    have hshapes := readArguments_shapes (fits.readArguments_eq known.sound)
    obtain ⟨_, hplain, htarget⟩ := fits.parts
    obtain ⟨entry, hmem, rfl, _⟩ := known
    refine ⟨⟨entry, hmem, hshapes.labelled (some name)⟩, hplain, ?_, ?_⟩
    · rintro label ⟨⟩
      exact labels.isWord named (hw word List.mem_cons_self)
    · intro target ht
      exact hw target (List.mem_cons_of_mem _ (List.mem_cons_of_mem _ (htarget target ht)))

theorem parseOperation_admits {line : String} {number : Nat} {operation : Operation}
    (h : parseOperation table line number = .ok operation) :
    table.Admits operation.toInstruction := by
  obtain ⟨instruction, hsentence, rfl⟩ := parseOperation_eq_ok_iff.mp h
  exact hsentence.admits fun _ => Text.isWord_of_mem_words

end

section
variable {table : OpcodeTable} {marker : Char} {instructions : List Instruction}

/-- A line without a comment and without blanks at its ends is left alone. -/
theorem stripComment_eq_self {line : String} (h : Text.Trimmed line)
    (hm : marker ∉ line.toList) : stripComment marker line = line := by
  have hwhole : CutAt marker line line := ⟨hm, .inl rfl⟩
  rw [hwhole.stripComment_eq, ← Text.trims_iff.mp h.trims_self]

/-- The operations that are read from the lines for instructions, counted from a number. -/
def numbered (instructions : List Instruction) (start : Nat) : List Operation :=
  (instructions.zipIdx start).map fun (instruction, number) =>
    { instruction with raw := instruction.canonical, line := number }

theorem readLine_canonical {instruction : Instruction} (hc : table.Uncoloned)
    (ha : table.Admits instruction) (hm : marker ∉ instruction.canonical.toList) (number : Nat) :
    readLine table marker instruction.canonical number =
      some (.ok { instruction with raw := instruction.canonical, line := number }) := by
  have htrimmed := ha.trimmed_canonical
  have hstrip := stripComment_eq_self htrimmed hm
  refine readLine_eq_ok_iff.mpr ⟨?_, ?_⟩
  · rw [hstrip]
    exact htrimmed.nonempty
  · rw [hstrip]
    exact ha.parseOperation_eq hc number

theorem readLines_canonical (hc : table.Uncoloned)
    (ha : ∀ instruction ∈ instructions, table.Admits instruction)
    (hm : ∀ instruction ∈ instructions, marker ∉ instruction.canonical.toList) (start : Nat) :
    readLines table marker (instructions.map Instruction.canonical) start =
      (numbered instructions start).map .ok := by
  induction instructions generalizing start with
  | nil => rfl
  | cons instruction instructions ih =>
    have hfirst := readLine_canonical hc (ha instruction (by simp)) (hm instruction (by simp)) start
    have hrest := ih (fun other h => ha other (by simp [h])) (fun other h => hm other (by simp [h]))
      (start + 1)
    rw [List.map_cons, readLines_cons, hfirst, hrest]
    rfl

theorem parseProgram_canonical (hc : table.Uncoloned)
    (ha : ∀ instruction ∈ instructions, table.Admits instruction)
    (hm : ∀ instruction ∈ instructions, marker ∉ instruction.canonical.toList) :
    parseProgram table marker (instructions.map Instruction.canonical) =
      (⟨(numbered instructions 1).toArray⟩, []) := by
  have hops : operations ((numbered instructions 1).map .ok) = numbered instructions 1 := by
    simp only [operations, List.filterMap_map, Function.comp_def, List.filterMap_some]
  have hdiags : diagnostics ((numbered instructions 1).map .ok) = [] := by
    simp [diagnostics, List.filterMap_map]
  simp only [parseProgram, readLines_canonical hc ha hm, hops, hdiags]

end

/-- Writing instructions and reading them gives them back. What is read is well formed; and where
no mnemonic ends with a colon, the lines for well-formed instructions, none of which holds the
comment marker, are read without a diagnostic, each as its own instruction under its own number,
so that different instructions are written differently. -/
theorem canonical_text_reads_back (table : OpcodeTable) :
    (∀ line number operation, parseOperation table line number = .ok operation →
      table.Admits operation.toInstruction) ∧
    (table.Uncoloned →
      (∀ marker (instructions : List Instruction),
        (∀ instruction ∈ instructions, table.Admits instruction) →
        (∀ instruction ∈ instructions, marker ∉ instruction.canonical.toList) →
        ∃ program, parseProgram table marker (instructions.map Instruction.canonical) =
            (program, []) ∧
          program.size = instructions.length ∧
          ∀ (i : Nat) (instruction : Instruction), instructions[i]? = some instruction →
            program.operations[i]? =
              some { instruction with raw := instruction.canonical, line := i + 1 }) ∧
      ∀ first second, table.Admits first → table.Admits second →
        first.canonical = second.canonical → first = second) := by
  refine ⟨fun _ _ _ => parseOperation_admits, fun hc => ⟨?_, ?_⟩⟩
  · intro marker instructions ha hm
    refine ⟨_, parseProgram_canonical hc ha hm, by simp [Program.size, numbered], ?_⟩
    intro i instruction hi
    simp [numbered, hi, Nat.add_comm 1]
  · intro first second hfirst hsecond
    exact hfirst.canonical_injective hsecond hc

/-- Labels that look like a mnemonic and like a number, and the least of all numbers. -/
def lookalikes : List Instruction :=
  [{ opcode := "LOAD", label := some "LOAD:", value := some Int64.minValue, mode := .direct },
    { opcode := "JUMP", label := some "=7", target := some "LOAD:" }]

theorem admits_lookalikes : ∀ instruction ∈ lookalikes, Ram.table.Admits instruction := by
  simp only [lookalikes, List.forall_mem_cons, List.not_mem_nil, false_imp_iff, implies_true,
    and_true]
  refine ⟨⟨?_, ?_, ?_, ?_⟩, ⟨?_, ?_, ?_, ?_⟩⟩
  · refine ⟨Ram.table.entries[0], List.getElem_mem _, rfl, ?_, ?_, ?_⟩
    · decide
    · exact fun _ _ => ⟨rfl, rfl, _, rfl, by decide⟩
    · decide
  · decide
  · rintro label ⟨⟩
    exact ⟨by decide, Text.solid_of_all rfl⟩
  · rintro target ⟨⟩
  · refine ⟨Ram.table.entries[9], List.getElem_mem _, rfl, ?_, ?_, ?_⟩
    · exact fun _ => ⟨rfl, rfl⟩
    · decide
    · decide
  · exact fun _ => rfl
  · rintro label ⟨⟩
    exact ⟨by decide, Text.solid_of_all rfl⟩
  · rintro target ⟨⟩
    exact ⟨by decide, Text.solid_of_all rfl⟩

theorem canonical_text_reads_back_lookalikes :
    Ram.table.Uncoloned ∧
      lookalikes.map Instruction.canonical =
        ["LOAD:: LOAD =-9223372036854775808", "=7: JUMP LOAD:"] ∧
      ∃ program, parseProgram Ram.table '#' (lookalikes.map Instruction.canonical) =
          (program, []) ∧
        program.operations[0]? = some
          { opcode := "LOAD", label := some "LOAD:", value := some Int64.minValue, mode := .direct,
            raw := "LOAD:: LOAD =-9223372036854775808", line := 1 } := by
  have hc : Ram.table.Uncoloned := by
    unfold OpcodeTable.Uncoloned
    decide
  have htext : lookalikes.map Instruction.canonical =
      ["LOAD:: LOAD =-9223372036854775808", "=7: JUMP LOAD:"] := by decide +kernel
  have hmarker : ∀ instruction ∈ lookalikes, '#' ∉ instruction.canonical.toList := by
    decide +kernel
  obtain ⟨program, hread, _, hoperation⟩ :=
    ((canonical_text_reads_back Ram.table).2 hc).1 '#' lookalikes admits_lookalikes hmarker
  refine ⟨hc, htext, program, hread, ?_⟩
  rw [hoperation 0 _ rfl]
  decide +kernel

end Source

end RegisterMachine

import RegisterMachine.Proofs.CanonicalText
import RegisterMachine.Proofs.Dispatching
import RegisterMachine.Proofs.SettingsText

namespace RegisterMachine

/-- A session loads a line as one instruction, without a diagnostic. -/
def Session.LoadsAs (session : Session) (line : String) (instruction : Instruction) : Prop :=
  (session.load [line]).2 = [] ∧
    (session.load [line]).1.program.operations.toList.map Operation.toInstruction = [instruction]

theorem CasePolicy.length_of_key_eq {policy : CasePolicy} {word other : String}
    (h : policy.key word = policy.key other) : word.length = other.length := by
  cases policy with
  | sensitive => exact congrArg String.length h
  | insensitive =>
    have hfold := congrArg (fun s => s.toList.length) h
    simp only [CasePolicy.key, Text.toList_foldCase, List.length_map, String.length_toList] at hfold
    exact hfold

/-- However a mnemonic is spelled, it is as long as it was declared. -/
theorem OpcodeTable.Declares.length_eq {table : OpcodeTable} {word : String}
    {descriptor : Descriptor} (h : table.Declares word descriptor) :
    descriptor.mnemonic.length = word.length := by
  obtain ⟨entry, _, rfl, hkey⟩ := h
  exact CasePolicy.length_of_key_eq hkey

namespace Source

section
variable {table : OpcodeTable} {marker : Char} {front line part : String} {words : List String}
  {descriptor : Descriptor} {instruction : Instruction}

/-- What stands before a line moves no cut, if it holds no marker. -/
theorem CutAt.prepend (h : CutAt marker line part) (hfront : marker ∉ front.toList) :
    CutAt marker (front ++ line) (front ++ part) := by
  refine ⟨?_, ?_⟩
  · simp [hfront, h.unmarked]
  · rcases h.cut with rfl | ⟨comment, rfl⟩
    · exact .inl rfl
    · exact .inr ⟨comment, String.toList_inj.mp (by simp)⟩

/-- A cut leaves less of a line that has a marker, unless the marker is a blank. -/
theorem CutAt.ink_lt (h : CutAt marker line part) (hmarker : Text.isBlank marker = false)
    (hmem : marker ∈ line.toList) : Text.ink part.toList < Text.ink line.toList := by
  rcases h.cut with rfl | ⟨comment, rfl⟩
  · exact absurd hmem h.unmarked
  · have hone : Text.ink [marker] = 1 := by simp [Text.ink, hmarker]
    simp only [String.toList_append, String.toList_singleton, Text.ink_append, hone]
    omega

/-- No arguments for an operand are shorter than the operand as it is written. -/
theorem Fits.length_le (h : Fits descriptor words instruction) :
    (instruction.operandText.toList.flatMap String.toList).length ≤
      (words.flatMap String.toList).length := by
  cases h with
  | jump target label => simp [Instruction.operandText]
  | bare label number => simp [Instruction.operandText]
  | number number allowed numeral sign =>
    have hlength := Text.length_decimal_le numeral
    simp [Instruction.operandText] at hlength ⊢
    exact hlength

/-- The opcode and the operand of an instruction, by the number of their characters. -/
def bodyLength (instruction : Instruction) : Nat :=
  instruction.opcode.length + (instruction.operandText.toList.flatMap String.toList).length

theorem bodyLength_labelled (instruction : Instruction) (label : Option String) :
    bodyLength { instruction with label } = bodyLength instruction :=
  rfl

theorem ink_bodyText (h : table.Admits instruction) :
    Text.ink instruction.bodyText.toList = bodyLength instruction := by
  rw [← Text.length_flatMap_words, h.words_bodyText, List.flatMap_cons, List.length_append,
    String.length_toList, bodyLength]

theorem Fits.bodyLength_le {mnemonic : String} {arguments : List String}
    (known : table.Declares mnemonic descriptor) (fits : Fits descriptor arguments instruction) :
    bodyLength instruction ≤ ((mnemonic :: arguments).flatMap String.toList).length := by
  have hopcode : instruction.opcode = descriptor.mnemonic := by cases fits <;> rfl
  have hoperand := fits.length_le
  rw [bodyLength, hopcode, known.length_eq, List.flatMap_cons, List.length_append,
    String.length_toList]
  omega

/-- Behind the label, no words for an instruction are shorter than its line has them. -/
theorem Sentence.bodyLength_le (hc : table.Uncoloned)
    (h : Sentence table ((instruction.label.map (· ++ ":")).toList ++ words) instruction) :
    bodyLength instruction ≤ (words.flatMap String.toList).length := by
  cases hlabel : instruction.label with
  | none =>
    rw [hlabel] at h
    cases h with
    | plain known fits => exact fits.bodyLength_le known
    | labelled unknown labels named known fits => cases hlabel
  | some label =>
    rw [hlabel] at h
    cases h with
    | plain known fits => exact absurd ⟨_, known⟩ (hc.not_known label)
    | labelled unknown labels named known fits =>
      rw [bodyLength_labelled]
      exact fits.bodyLength_le known

/-- A cut in what follows the label leaves the label alone. -/
theorem words_stripComment_canonical (h : table.Admits instruction)
    (hfree : marker ≠ ':' ∧ marker ≠ ' ')
    (hlabel : ∀ label, instruction.label = some label → marker ∉ label.toList)
    (hpart : CutAt marker instruction.bodyText part) :
    Text.words (stripComment marker instruction.canonical) =
      (instruction.label.map (· ++ ":")).toList ++ Text.words part := by
  cases hl : instruction.label with
  | none =>
    have hbody : instruction.canonical = instruction.bodyText := by
      simp [Instruction.canonical, hl]
    rw [hbody, hpart.stripComment_eq, Text.words_trim]
    rfl
  | some label =>
    have hfront : marker ∉ (label ++ ":" ++ " ").toList := by
      simp [hlabel label hl, hfree]
    rw [OpcodeTable.Admits.canonical_eq hl, (hpart.prepend hfront).stripComment_eq,
      Text.words_trim, Text.words_append_space (h.colon hl)]
    rfl

/-- The line for an instruction is read as that instruction just where the marker does not stand
behind the label. -/
theorem readLine_canonical_iff (hc : table.Uncoloned) (h : table.Admits instruction)
    (hblank : Text.isBlank marker = false) (hcolon : marker ≠ ':')
    (hlabel : ∀ label, instruction.label = some label → marker ∉ label.toList) (number : Nat) :
    (∃ operation, readLine table marker instruction.canonical number = some (.ok operation) ∧
      operation.toInstruction = instruction) ↔ marker ∉ instruction.bodyText.toList := by
  have hspace : marker ≠ ' ' := by
    rintro rfl
    cases hblank
  constructor
  · rintro ⟨operation, hread, rfl⟩ hmem
    obtain ⟨part, hpart⟩ := exists_cutAt marker operation.bodyText
    obtain ⟨instruction, hsentence, hoperation⟩ :=
      parseOperation_eq_ok_iff.mp (readLine_eq_ok_iff.mp hread).2
    obtain rfl : operation.toInstruction = instruction := by rw [hoperation]
    rw [words_stripComment_canonical h ⟨hcolon, hspace⟩ hlabel hpart] at hsentence
    have hlength := hsentence.bodyLength_le hc
    rw [Text.length_flatMap_words, ← ink_bodyText h] at hlength
    exact absurd hlength (Nat.not_le.mpr (hpart.ink_lt hblank hmem))
  · intro hmem
    have hcanonical : marker ∉ instruction.canonical.toList := by
      unfold Instruction.canonical
      cases hl : instruction.label with
      | none => exact hmem
      | some label => simp [hlabel label hl, hcolon, hspace, hmem]
    exact ⟨_, readLine_canonical hc h hcanonical number, rfl⟩

end

end Source

namespace Session

section
variable {session : Session} {line : String} {instruction : Instruction}

theorem loadsAs_iff : session.LoadsAs line instruction ↔
    ∃ operation, Source.readLine session.table session.settings.commentMarker line 1 =
      some (.ok operation) ∧ operation.toInstruction = instruction := by
  have hlines : Source.readLines session.table session.settings.commentMarker [line] 1 =
      (Source.readLine session.table session.settings.commentMarker line 1).toList := by
    rw [Source.readLines_cons]
    exact List.append_nil _
  simp only [LoadsAs, load, Source.parseProgram, hlines]
  cases Source.readLine session.table session.settings.commentMarker line 1 with
  | none => simp [Source.operations]
  | some entry =>
    cases entry with
    | ok operation => simp [Source.operations, Source.diagnostics]
    | error diagnostic => simp [Source.diagnostics]

end

end Session

theorem Ram.uncoloned : Ram.table.Uncoloned := by
  unfold OpcodeTable.Uncoloned
  decide

/-- A target leaves no place for a number. -/
theorem OpcodeTable.Admits.value_eq_none {table : OpcodeTable} {instruction : Instruction}
    (h : table.Admits instruction) (htarget : instruction.target.isSome) :
    instruction.value = none := by
  obtain ⟨entry, _, hshapes⟩ := h.declared
  cases hlabel : entry.descriptor.takesLabel with
  | true => exact (hshapes.jump hlabel).1
  | false =>
    cases hnumber : entry.descriptor.takesNumber with
    | true => simp [(hshapes.number hlabel hnumber).1] at htarget
    | false => exact (hshapes.bare hlabel hnumber).1

/-- Of the characters behind the label only those of the opcode, the target and the number can be
a marker that is accepted. -/
theorem OpcodeTable.Admits.mem_bodyText_iff {table : OpcodeTable} {instruction : Instruction}
    {marker : Char} (h : table.Admits instruction) (hmarker : ¬ Settings.Clashing marker)
    (htarget : ∀ target, instruction.target = some target → marker ∉ target.toList) :
    marker ∈ instruction.bodyText.toList ↔ marker ∈ instruction.opcode.toList ∨
      ∃ value, instruction.value = some value ∧ marker ∈ (Text.decimal value.toInt).toList := by
  have hspace : marker ≠ ' ' := by
    rintro rfl
    exact hmarker (.inl rfl)
  have hsigil : marker ∉ instruction.mode.sigil.toList := by
    simp only [Settings.Clashing, not_or] at hmarker
    cases instruction.mode <;> simp [Mode.sigil, hmarker]
  unfold Instruction.bodyText Instruction.operandText
  cases ht : instruction.target with
  | some target =>
    have hvalue := h.value_eq_none (by simp [ht])
    simp [hvalue, hspace, htarget target ht]
  | none =>
    cases instruction.value with
    | none => simp
    | some value => simp [hspace, hsigil]

/-- An accepted comment marker is no blank, no sigil and no colon, but it may be a letter of an
opcode, a digit or a minus. Of the well-formed instructions whose label and target do not hold it,
those are loaded as they are written whose opcode and number do not hold it either, and no
others. -/
theorem accepted_marker_harmless_iff {text : String} {settings : Settings} {session : Session}
    {instruction : Instruction} (hsettings : Settings.ofJson text = .ok settings)
    (hsession : Session.create Machine.ram settings = .ok session)
    (hinstruction : Ram.table.Admits instruction)
    (hlabel : ∀ label, instruction.label = some label → settings.commentMarker ∉ label.toList)
    (htarget : ∀ target, instruction.target = some target →
      settings.commentMarker ∉ target.toList) :
    session.LoadsAs instruction.canonical instruction ↔
      settings.commentMarker ∉ instruction.opcode.toList ∧
        ∀ value, instruction.value = some value →
          settings.commentMarker ∉ (Text.decimal value.toInt).toList := by
  have hmarker := Settings.not_clashing_of_ofJson hsettings
  rw [Session.create_ram] at hsession
  obtain rfl := Except.ok.inj hsession
  have hread := Source.readLine_canonical_iff Ram.uncoloned hinstruction
    (Bool.eq_false_iff.mpr fun hblank => hmarker (.inl hblank))
    (fun hcolon => hmarker (.inr (.inr (.inr hcolon)))) hlabel 1
  rw [Session.loadsAs_iff]
  refine hread.trans ?_
  rw [hinstruction.mem_bodyText_iff hmarker htarget]
  simp

/-- A difference that is written without a minus. -/
def subtracting : Operation where
  opcode := "SUB"
  label := some "go"
  value := some 3
  raw := "go: SUB 3"
  line := 1

theorem accepted_marker_harmless_iff_minus :
    Settings.ofJson "[0,null,\"-\"]" = .ok { commentMarker := '-' } ∧
      Ram.table.Admits subtracting.toInstruction ∧
      (Session.ofRam { commentMarker := '-' }).LoadsAs "go: SUB 3" subtracting.toInstruction := by
  have hsettings : Settings.ofJson "[0,null,\"-\"]" = .ok { commentMarker := '-' } := by
    decide +kernel
  have hread : Source.parseOperation Ram.table "go: SUB 3" 1 = .ok subtracting := by
    decide +kernel
  have hadmits := Source.parseOperation_admits hread
  have hloads := accepted_marker_harmless_iff hsettings (Session.create_ram _) hadmits
    (by simp [subtracting]) (by simp [subtracting])
  refine ⟨hsettings, hadmits, hloads.mpr ⟨by decide, ?_⟩⟩
  rintro value ⟨⟩
  decide

/-- An output of a number with the digit one. -/
def writing : Operation where
  opcode := "WRITE"
  value := some 21
  mode := .direct
  raw := "WRITE =21"
  line := 1

/-- With a digit as comment marker, which is accepted, a number is cut and another is loaded. -/
theorem accepted_marker_cuts_number :
    Settings.ofJson "\x7b\"comment_marker\":\"1\"\x7d" = .ok { commentMarker := '1' } ∧
      Session.create Machine.ram { commentMarker := '1' } =
        .ok (Session.ofRam { commentMarker := '1' }) ∧
      Ram.table.Admits writing.toInstruction ∧
      writing.label = none ∧ writing.target = none ∧ writing.canonical = "WRITE =21" ∧
      ¬ (Session.ofRam { commentMarker := '1' }).LoadsAs "WRITE =21" writing.toInstruction ∧
      (Session.ofRam { commentMarker := '1' }).LoadsAs "WRITE =21"
        { writing.toInstruction with value := some 2 } := by
  have hread : Source.parseOperation Ram.table "WRITE =21" 1 = .ok writing := by
    decide +kernel
  refine ⟨by decide +kernel, Session.create_ram _, Source.parseOperation_admits hread, rfl, rfl,
    by decide +kernel, ?_, ?_⟩
  · unfold Session.LoadsAs
    decide +kernel
  · unfold Session.LoadsAs
    decide +kernel

end RegisterMachine

import RegisterMachine.Proofs.Numerals
import RegisterMachine.Proofs.Tables
import RegisterMachine.Source

namespace RegisterMachine.Source

/-- An argument is the sigil of a mode with digits behind it. The mode without a sigil is meant
only where no sigil stands. -/
def Spells (argument : String) (mode : Mode) (digits : String) : Prop :=
  argument = mode.sigil ++ digits ∧
    (mode = .registry → argument.toList.head? ≠ some '*' ∧ argument.toList.head? ≠ some '=')

/-- Arguments that fit a descriptor, and the instruction that they make. -/
inductive Fits (descriptor : Descriptor) : List String → Instruction → Prop
  | jump (target : String) (label : descriptor.takesLabel = true) :
      Fits descriptor [target] { opcode := descriptor.mnemonic, target := some target }
  | bare (label : descriptor.takesLabel = false) (number : descriptor.takesNumber = false) :
      Fits descriptor [] { opcode := descriptor.mnemonic }
  | number {mode : Mode} {digits : String} {value : Int64}
      (number : descriptor.takesNumber = true) (allowed : descriptor.allows mode = true)
      (numeral : Text.numeral? digits.toList = some value.toInt)
      (sign : mode ≠ .direct → 0 ≤ value) :
      Fits descriptor [mode.sigil ++ digits]
        { opcode := descriptor.mnemonic, value := some value, mode := mode }

/-- The rules for the words of a line, in the order in which they are checked. -/
inductive Rule where
  | someWord
  | opcodeFollows
  | labelNamed
  | opcodeKnown
  | argumentCount
  | modeAllowed
  | integerRead
  | registerNumber
  deriving DecidableEq, Repr

namespace Rule

def place : Rule → Nat
  | someWord => 1
  | opcodeFollows => 2
  | labelNamed => 3
  | opcodeKnown => 4
  | argumentCount => 5
  | modeAllowed => 6
  | integerRead => 7
  | registerNumber => 8

/-- The kind of the fault that reports a broken rule. -/
def kind : Rule → Fault.Kind
  | someWord | labelNamed => .parseFailed
  | opcodeFollows | opcodeKnown => .unknownOpcode
  | argumentCount | integerRead => .invalidOperand
  | modeAllowed => .addressingModeNotAllowed
  | registerNumber => .negativeRegister

theorem place_injective {rule other : Rule} (h : rule.place = other.place) : rule = other := by
  cases rule <;> cases other <;> first | rfl | cases h

end Rule

/-- A rule that arguments break, whatever other rules they break, and the problem with them. -/
inductive Misfits (descriptor : Descriptor) : List String → Rule → Problem → Prop
  | noTarget (label : descriptor.takesLabel = true) :
      Misfits descriptor [] .argumentCount (.missingJumpLabel descriptor.mnemonic)
  | noNumber (number : descriptor.takesNumber = true) :
      Misfits descriptor [] .argumentCount (.missingParameter descriptor.mnemonic)
  | surplus {arguments : List String}
      (operand : descriptor.takesLabel = true ∨ descriptor.takesNumber = true)
      (many : 1 < arguments.length) :
      Misfits descriptor arguments .argumentCount
        (.tooManyArguments descriptor.mnemonic arguments.length)
  | unasked {arguments : List String} (label : descriptor.takesLabel = false)
      (number : descriptor.takesNumber = false) (given : arguments ≠ []) :
      Misfits descriptor arguments .argumentCount (.unexpectedParameter descriptor.mnemonic)
  | mode {argument digits : String} {mode : Mode} (number : descriptor.takesNumber = true)
      (spells : Spells argument mode digits) (refused : descriptor.allows mode = false) :
      Misfits descriptor [argument] .modeAllowed (.modeNotAllowed descriptor.mnemonic mode)
  | digits {argument digits : String} {mode : Mode} {fault : Text.IntegerFault}
      (number : descriptor.takesNumber = true) (spells : Spells argument mode digits)
      (unread : Text.readInt64 digits = .error fault) :
      Misfits descriptor [argument] .integerRead (.nonNumericArgument argument fault)
  | negative {argument digits : String} {mode : Mode} {value : Int64}
      (number : descriptor.takesNumber = true) (spells : Spells argument mode digits)
      (register : mode ≠ .direct) (numeral : Text.numeral? digits.toList = some value.toInt)
      (below : value < 0) :
      Misfits descriptor [argument] .registerNumber (.negativeRegister value)

/-- Of the rules that are broken, this one comes first. -/
def FirstBroken (breaks : Rule → Problem → Prop) (rule : Rule) (problem : Problem) : Prop :=
  breaks rule problem ∧ ∀ other problem', breaks other problem' → rule.place ≤ other.place

section
variable {argument digits : String} {mode : Mode}

theorem spells_iff : Spells argument mode digits ↔ splitSigil argument = (mode, digits) := by
  unfold Spells splitSigil
  constructor
  · rintro ⟨rfl, hbare⟩
    cases mode with
    | direct => simp [Mode.sigil]
    | pointer => simp [Mode.sigil]
    | registry =>
      obtain ⟨hstar, hequals⟩ := hbare rfl
      simp only [Mode.sigil, String.empty_append] at hstar hequals ⊢
      split
      · rename_i heq; simp [heq] at hstar
      · rename_i heq; simp [heq] at hequals
      · rfl
  · intro h
    split at h
    · rename_i heq
      cases h
      exact ⟨String.toList_inj.mp (by simp [heq, Mode.sigil]), by simp⟩
    · rename_i heq
      cases h
      exact ⟨String.toList_inj.mp (by simp [heq, Mode.sigil]), by simp⟩
    · rename_i hstar hequals
      cases h
      refine ⟨by simp [Mode.sigil], fun _ => ⟨?_, ?_⟩⟩
      · intro hhead
        obtain ⟨rest, hrest⟩ := List.head?_eq_some_iff.mp hhead
        exact hstar rest hrest
      · intro hhead
        obtain ⟨rest, hrest⟩ := List.head?_eq_some_iff.mp hhead
        exact hequals rest hrest

/-- A numeral starts with no sigil, so what stands before it is the sigil of its mode. -/
theorem spells_of_numeral {n : Int} (h : Text.numeral? digits.toList = some n) (mode : Mode) :
    Spells (mode.sigil ++ digits) mode digits := by
  refine ⟨rfl, ?_⟩
  rintro rfl
  rw [Mode.sigil, String.empty_append]
  constructor
  · intro hhead
    obtain ⟨rest, hrest⟩ := List.head?_eq_some_iff.mp hhead
    rw [hrest] at h
    simp [Text.numeral?, Text.digits?] at h
  · intro hhead
    obtain ⟨rest, hrest⟩ := List.head?_eq_some_iff.mp hhead
    rw [hrest] at h
    simp [Text.numeral?, Text.digits?] at h

theorem Spells.unique {other : Mode} {rest : String} (h : Spells argument mode digits)
    (h' : Spells argument other rest) : mode = other ∧ digits = rest := by
  have hsame := (spells_iff.mp h).symm.trans (spells_iff.mp h')
  exact Prod.mk.inj hsame

theorem exists_spells (argument : String) : ∃ mode digits, Spells argument mode digits :=
  ⟨_, _, spells_iff.mpr rfl⟩

end

section
variable {descriptor : Descriptor} {arguments : List String} {instruction : Instruction}
  {argument digits : String} {mode : Mode} {value : Int64} {rule : Rule} {problem : Problem}

theorem readNumber_of_spells (h : Spells argument mode digits) :
    readNumber descriptor argument =
      if descriptor.allows mode then
        match Text.readInt64 digits with
        | .error fault => .error (.nonNumericArgument argument fault)
        | .ok value =>
          if mode ≠ .direct ∧ value < 0 then .error (.negativeRegister value)
          else .ok (mode, value)
      else .error (.modeNotAllowed descriptor.mnemonic mode) := by
  have hsplit := spells_iff.mp h
  unfold readNumber
  generalize splitSigil argument = split at hsplit ⊢
  subst hsplit
  rfl

theorem readNumber_of_numeral (ha : descriptor.allows mode = true)
    (hn : Text.numeral? digits.toList = some value.toInt) (hs : mode ≠ .direct → 0 ≤ value) :
    readNumber descriptor (mode.sigil ++ digits) = .ok (mode, value) := by
  have hsign : ¬ (mode ≠ .direct ∧ value < 0) := by
    rintro ⟨hm, hneg⟩
    exact Int64.not_lt.mpr (hs hm) hneg
  rw [readNumber_of_spells (spells_of_numeral hn mode), if_pos ha,
    Text.readInt64_eq_ok_iff.mpr hn]
  exact if_neg hsign

theorem takesLabel_eq_false (hd : descriptor.Sound) (hn : descriptor.takesNumber = true) :
    descriptor.takesLabel = false := by
  cases hl : descriptor.takesLabel with
  | false => rfl
  | true => exact absurd ⟨hl, hn⟩ hd.operand

theorem Fits.readArguments_eq (hd : descriptor.Sound)
    (h : Fits descriptor arguments instruction) :
    readArguments descriptor arguments = .ok instruction := by
  unfold readArguments
  cases h with
  | jump target label => simp only [label, if_true]
  | bare label number => simp only [label, number, Bool.false_eq_true, if_false]
  | number number allowed numeral sign =>
    simp only [takesLabel_eq_false hd number, number, Bool.false_eq_true, if_false, if_true,
      readNumber_of_numeral allowed numeral sign]

theorem Fits.not_misfits (hd : descriptor.Sound) (h : Fits descriptor arguments instruction) :
    ¬ Misfits descriptor arguments rule problem := by
  intro hm
  cases h with
  | jump target label =>
    have hnumber : ¬ descriptor.takesNumber = true := fun hn => hd.operand ⟨label, hn⟩
    cases hm with
    | surplus operand many => simp at many
    | unasked label' => simp [label] at label'
    | mode number => exact hnumber number
    | digits number => exact hnumber number
    | negative number => exact hnumber number
  | bare label number =>
    cases hm with
    | noTarget label' => simp [label] at label'
    | noNumber number' => simp [number] at number'
    | surplus operand many => simp at many
    | unasked _ _ given => exact given rfl
  | @number mode digits value number allowed numeral sign =>
    have hspells := spells_of_numeral numeral mode
    cases hm with
    | surplus operand many => simp at many
    | unasked _ number' => simp [number] at number'
    | mode _ spells refused =>
      obtain ⟨rfl, _⟩ := hspells.unique spells
      simp [allowed] at refused
    | digits _ spells unread =>
      obtain ⟨_, rfl⟩ := hspells.unique spells
      simp [Text.readInt64_eq_ok_iff.mpr numeral] at unread
    | negative _ spells register numeral' below =>
      obtain ⟨rfl, rfl⟩ := hspells.unique spells
      rw [numeral] at numeral'
      have hsame := Int64.toInt_inj.mp (Option.some.inj numeral')
      exact Int64.not_lt.mpr (sign register) (hsame ▸ below)

theorem Misfits.readArguments_eq (hd : descriptor.Sound)
    (h : Misfits descriptor arguments .argumentCount problem) :
    readArguments descriptor arguments = .error problem := by
  unfold readArguments
  cases h with
  | noTarget label => simp only [label, if_true]
  | noNumber number =>
    simp only [takesLabel_eq_false hd number, number, Bool.false_eq_true, if_false, if_true]
  | surplus operand many =>
    obtain ⟨first, second, rest, rfl⟩ : ∃ first second rest, arguments = first :: second :: rest :=
      match arguments, many with
      | first :: second :: rest, _ => ⟨first, second, rest, rfl⟩
    rcases operand with label | number
    · simp only [label, if_true]
    · simp only [takesLabel_eq_false hd number, number, Bool.false_eq_true, if_false, if_true]
  | unasked label number given =>
    obtain ⟨first, rest, rfl⟩ := List.exists_cons_of_ne_nil given
    simp only [label, number, Bool.false_eq_true, if_false]

/-- A single argument for a number breaks no rule but those about its mode and its number. -/
theorem Misfits.single (hn : descriptor.takesNumber = true) (hs : Spells argument mode digits)
    (h : Misfits descriptor [argument] rule problem) :
    (rule = .modeAllowed ∧ descriptor.allows mode = false ∧
        problem = .modeNotAllowed descriptor.mnemonic mode) ∨
      (∃ fault, rule = .integerRead ∧ Text.readInt64 digits = .error fault ∧
        problem = .nonNumericArgument argument fault) ∨
      ∃ value, rule = .registerNumber ∧ Text.readInt64 digits = .ok value ∧
        problem = .negativeRegister value := by
  cases h with
  | surplus operand many => simp at many
  | unasked label number => simp [hn] at number
  | mode number spells refused =>
    obtain ⟨rfl, rfl⟩ := hs.unique spells
    exact .inl ⟨rfl, refused, rfl⟩
  | digits number spells unread =>
    obtain ⟨rfl, rfl⟩ := hs.unique spells
    exact .inr (.inl ⟨_, rfl, unread, rfl⟩)
  | negative number spells register numeral below =>
    obtain ⟨rfl, rfl⟩ := hs.unique spells
    exact .inr (.inr ⟨_, rfl, Text.readInt64_eq_ok_iff.mpr numeral, rfl⟩)

theorem Misfits.place_le (h : Misfits descriptor arguments rule problem) :
    Rule.argumentCount.place ≤ rule.place := by
  cases h <;> decide

theorem Misfits.first (h : Misfits descriptor arguments .argumentCount problem) :
    FirstBroken (Misfits descriptor arguments) .argumentCount problem :=
  ⟨h, fun _ _ h' => h'.place_le⟩

theorem readNumber_cases (hn : descriptor.takesNumber = true) (argument : String) :
    (∃ mode value, readNumber descriptor argument = .ok (mode, value) ∧
        Fits descriptor [argument]
          { opcode := descriptor.mnemonic, value := some value, mode := mode }) ∨
      ∃ rule problem, readNumber descriptor argument = .error problem ∧
        FirstBroken (Misfits descriptor [argument]) rule problem := by
  obtain ⟨mode, digits, hs⟩ := exists_spells argument
  -- Of the three rules that the argument can break, those before the one at hand are kept.
  have hsingle := fun rule problem =>
    @Misfits.single descriptor argument digits mode rule problem hn hs
  rw [readNumber_of_spells hs]
  cases hallows : descriptor.allows mode with
  | false =>
    refine .inr ⟨_, _, rfl, .mode hn hs hallows, ?_⟩
    intro other problem h
    rcases hsingle other problem h with ⟨rfl, _⟩ | ⟨_, rfl, _⟩ | ⟨_, rfl, _⟩ <;> decide
  | true =>
    cases hread : Text.readInt64 digits with
    | error fault =>
      refine .inr ⟨_, _, rfl, .digits hn hs hread, ?_⟩
      intro other problem h
      rcases hsingle other problem h with ⟨_, hrefused, _⟩ | ⟨_, rfl, _⟩ | ⟨_, rfl, _⟩
      · rw [hallows] at hrefused; cases hrefused
      · decide
      · decide
    | ok value =>
      have hnumeral := Text.readInt64_eq_ok_iff.mp hread
      by_cases hsign : mode ≠ .direct ∧ value < 0
      · refine .inr ⟨_, _, if_pos hsign, .negative hn hs hsign.1 hnumeral hsign.2, ?_⟩
        intro other problem h
        rcases hsingle other problem h with ⟨_, hrefused, _⟩ | ⟨_, _, hunread, _⟩ | ⟨_, rfl, _⟩
        · rw [hallows] at hrefused; cases hrefused
        · rw [hread] at hunread; cases hunread
        · decide
      · refine .inl ⟨mode, value, if_neg hsign, ?_⟩
        rw [hs.1]
        refine .number hn hallows hnumeral fun hm => ?_
        exact Int64.not_lt.mp fun hneg => hsign ⟨hm, hneg⟩

/-- Arguments are read, or break a rule; then the problem is with the first that they break. -/
theorem readArguments_cases (hd : descriptor.Sound) (arguments : List String) :
    (∃ instruction, readArguments descriptor arguments = .ok instruction ∧
        Fits descriptor arguments instruction) ∨
      ∃ rule problem, readArguments descriptor arguments = .error problem ∧
        FirstBroken (Misfits descriptor arguments) rule problem := by
  have hfits : ∀ instruction, Fits descriptor arguments instruction →
      ∃ instruction, readArguments descriptor arguments = .ok instruction ∧
        Fits descriptor arguments instruction := fun _ h => ⟨_, h.readArguments_eq hd, h⟩
  have hcount : ∀ problem, Misfits descriptor arguments .argumentCount problem →
      ∃ rule problem, readArguments descriptor arguments = .error problem ∧
        FirstBroken (Misfits descriptor arguments) rule problem :=
    fun _ h => ⟨_, _, h.readArguments_eq hd, h.first⟩
  cases hlabel : descriptor.takesLabel with
  | true =>
    match arguments with
    | [] => exact .inr (hcount _ (.noTarget hlabel))
    | [target] => exact .inl (hfits _ (.jump target hlabel))
    | first :: second :: rest => exact .inr (hcount _ (.surplus (.inl hlabel) (by simp)))
  | false =>
    cases hnumber : descriptor.takesNumber with
    | false =>
      match arguments with
      | [] => exact .inl (hfits _ (.bare hlabel hnumber))
      | first :: rest => exact .inr (hcount _ (.unasked hlabel hnumber (by simp)))
    | true =>
      match arguments with
      | [] => exact .inr (hcount _ (.noNumber hnumber))
      | first :: second :: rest => exact .inr (hcount _ (.surplus (.inr hnumber) (by simp)))
      | [argument] =>
        rcases readNumber_cases hnumber argument with
          ⟨mode, value, _, h⟩ | ⟨rule, problem, hread, h⟩
        · exact .inl (hfits _ h)
        · refine .inr ⟨rule, problem, ?_, h⟩
          unfold readArguments
          simp only [hlabel, hnumber, Bool.false_eq_true, if_false, if_true, hread]

/-- A rule is broken in one way. -/
theorem Misfits.unique (hd : descriptor.Sound) {other : Problem}
    (h : Misfits descriptor arguments rule problem)
    (h' : Misfits descriptor arguments rule other) : problem = other := by
  by_cases hrule : rule = .argumentCount
  -- What is wrong with the number of arguments is what reading them reports.
  · subst hrule
    exact Except.error.inj ((h.readArguments_eq hd).symm.trans (h'.readArguments_eq hd))
  · obtain ⟨argument, hn, rfl⟩ : ∃ argument, descriptor.takesNumber = true ∧
        arguments = [argument] := by
      cases h with
      | noTarget | noNumber | surplus | unasked => exact absurd rfl hrule
      | mode number => exact ⟨_, number, rfl⟩
      | digits number => exact ⟨_, number, rfl⟩
      | negative number => exact ⟨_, number, rfl⟩
    obtain ⟨mode, digits, hs⟩ := exists_spells argument
    rcases h.single hn hs with ⟨rfl, _, rfl⟩ | ⟨fault, rfl, hread, rfl⟩ | ⟨value, rfl, hread, rfl⟩
    · rcases h'.single hn hs with ⟨_, _, rfl⟩ | ⟨_, hr, _⟩ | ⟨_, hr, _⟩
      · rfl
      · cases hr
      · cases hr
    · rcases h'.single hn hs with ⟨hr, _⟩ | ⟨_, _, hread', rfl⟩ | ⟨_, hr, _⟩
      · cases hr
      · rw [Except.error.inj (hread.symm.trans hread')]
      · cases hr
    · rcases h'.single hn hs with ⟨hr, _⟩ | ⟨_, hr, _⟩ | ⟨_, _, hread', rfl⟩
      · cases hr
      · cases hr
      · rw [Except.ok.inj (hread.symm.trans hread')]

end

end RegisterMachine.Source

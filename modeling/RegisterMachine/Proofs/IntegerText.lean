import Mathlib.Data.List.Induction
import RegisterMachine.Proofs.CanonicalText
import RegisterMachine.Ram.Effects

namespace RegisterMachine.Text

/-- The integers of 64 bits. -/
def InRange (n : Int) : Prop :=
  -0x8000000000000000 ≤ n ∧ n ≤ 0x7FFFFFFFFFFFFFFF

/-- Digits that stand for an integer of 64 bits, under a sign; there may be none. -/
def Ranged (negative : Bool) (cs : List Char) : Prop :=
  cs.all Char.isDigit = true ∧ InRange (signed negative (Nat.ofDigitChars 10 cs 0))

/-- The leftmost problem behind a sign. Up to it there are digits of an integer in range; then
comes a character that is no digit, or a digit with which the integer leaves the range. -/
inductive Stumbles (negative : Bool) : List Char → IntegerFault → Prop
  | wrong {before after : List Char} {c : Char} (fine : Ranged negative before)
      (digit : c.isDigit = false) : Stumbles negative (before ++ c :: after) .invalidDigit
  | large {before after : List Char} {c : Char} (fine : Ranged negative before)
      (digit : c.isDigit = true)
      (beyond : 0x7FFFFFFFFFFFFFFF < signed negative (Nat.ofDigitChars 10 (before ++ [c]) 0)) :
      Stumbles negative (before ++ c :: after) .tooLarge
  | small {before after : List Char} {c : Char} (fine : Ranged negative before)
      (digit : c.isDigit = true)
      (beyond : signed negative (Nat.ofDigitChars 10 (before ++ [c]) 0) < -0x8000000000000000) :
      Stumbles negative (before ++ c :: after) .tooSmall

section
variable {cs before rest : List Char} {negative : Bool} {c : Char} {fault : IntegerFault}
  {text : String}

/-- The value of digits with one more behind them. -/
theorem ofDigitChars_concat (cs : List Char) (c : Char) :
    Nat.ofDigitChars 10 (cs ++ [c]) 0 =
      10 * Nat.ofDigitChars 10 cs 0 + (c.toNat - '0'.toNat) := by
  rw [Nat.ofDigitChars_append, Nat.ofDigitChars_cons, Nat.ofDigitChars_nil]

/-- Fewer digits are in range if more of them are. -/
theorem ranged_concat_iff : Ranged negative (cs ++ [c]) ↔
    Ranged negative cs ∧ c.isDigit = true ∧
      InRange (signed negative (Nat.ofDigitChars 10 (cs ++ [c]) 0)) := by
  have hvalue := ofDigitChars_concat cs c
  simp only [Ranged, List.all_append, List.all_cons, List.all_nil, Bool.and_true,
    Bool.and_eq_true]
  constructor
  · rintro ⟨⟨hdigits, hdigit⟩, hrange⟩
    refine ⟨⟨hdigits, ?_⟩, hdigit, hrange⟩
    rw [hvalue] at hrange
    unfold InRange at hrange ⊢
    cases negative <;> simp only [signed, Bool.false_eq_true, if_true, if_false] at * <;> omega
  · rintro ⟨⟨hdigits, -⟩, hdigit, hrange⟩
    exact ⟨⟨hdigits, hdigit⟩, hrange⟩

/-- One digit more is read if with it the integer stays in range. -/
theorem readDigits_digit (negative : Bool) (before rest : List Char) (hdigit : c.isDigit = true) :
    IntegerRange.signed64.readDigits negative (signed negative (Nat.ofDigitChars 10 before 0))
        (c :: rest) =
      if 0x7FFFFFFFFFFFFFFF < signed negative (Nat.ofDigitChars 10 (before ++ [c]) 0) then
        .error .tooLarge
      else if signed negative (Nat.ofDigitChars 10 (before ++ [c]) 0) < -0x8000000000000000 then
        .error .tooSmall
      else IntegerRange.signed64.readDigits negative
        (signed negative (Nat.ofDigitChars 10 (before ++ [c]) 0)) rest := by
  simp only [IntegerRange.readDigits, digit?, hdigit, if_true, signed_digit, ofDigitChars_concat,
    IntegerRange.signed64]

/-- Reading passes over digits that stay in range. -/
theorem readDigits_append (h : Ranged negative before) (rest : List Char) :
    IntegerRange.signed64.readDigits negative 0 (before ++ rest) =
      IntegerRange.signed64.readDigits negative (signed negative (Nat.ofDigitChars 10 before 0))
        rest := by
  induction before using List.reverseRecOn generalizing rest with
  | nil => cases negative <;> rfl
  | append_singleton before c ih =>
    obtain ⟨hbefore, hdigit, hlow, hhigh⟩ := ranged_concat_iff.mp h
    rw [List.append_assoc, List.singleton_append, ih hbefore, readDigits_digit _ _ _ hdigit,
      if_neg (by omega), if_neg (by omega)]

theorem Stumbles.append (h : Stumbles negative cs fault) (rest : List Char) :
    Stumbles negative (cs ++ rest) fault := by
  cases h with
  | wrong fine digit =>
    rw [List.append_assoc]
    exact .wrong fine digit
  | large fine digit beyond =>
    rw [List.append_assoc]
    exact .large fine digit beyond
  | small fine digit beyond =>
    rw [List.append_assoc]
    exact .small fine digit beyond

theorem Stumbles.ne_nil (h : Stumbles negative cs fault) : cs ≠ [] := by
  cases h <;> simp

end

end RegisterMachine.Text

namespace RegisterMachine.Source

/-- The words of a line give one argument to an opcode: behind its mnemonic, which may have a label
before it. -/
inductive Gives (table : OpcodeTable) (descriptor : Descriptor) (argument : String) :
    List String → Prop
  | plain {mnemonic : String} (known : table.Declares mnemonic descriptor) :
      Gives table descriptor argument [mnemonic, argument]
  | labelled {word name mnemonic : String} (unknown : ¬ table.Known word)
      (labels : Labels word name) (named : name ≠ "")
      (known : table.Declares mnemonic descriptor) :
      Gives table descriptor argument [word, mnemonic, argument]

section
variable {table : OpcodeTable} {descriptor : Descriptor} {argument digits line : String}
  {number : Nat} {mode : Mode} {value : Int64} {problem : Problem} {fault : Text.IntegerFault}

/-- What the argument is read as decides about all of the words. -/
theorem Gives.readWords_eq {words : List String} (h : Gives table descriptor argument words)
    (hnumber : descriptor.takesNumber = true) :
    ∃ label, readWords table words = (readNumber descriptor argument).map fun (mode, value) =>
      { label, opcode := descriptor.mnemonic, value := some value, mode } := by
  have harguments : descriptor.Sound → readArguments descriptor [argument] =
      (readNumber descriptor argument).map fun (mode, value) =>
        { opcode := descriptor.mnemonic, value := some value, mode } := by
    intro hsound
    unfold readArguments
    simp only [takesLabel_eq_false hsound hnumber, hnumber, Bool.false_eq_true, if_false, if_true]
    cases readNumber descriptor argument <;> rfl
  cases h with
  | plain known =>
    refine ⟨none, ?_⟩
    rw [readWords_first ⟨_, known⟩, readOpcode_of_declares known, harguments known.sound]
  | @labelled word name mnemonic unknown labels named known =>
    refine ⟨some name, ?_⟩
    rw [readWords_second unknown labels named, readOpcode_of_declares known,
      harguments known.sound]
    cases readNumber descriptor argument <;> rfl

end

end RegisterMachine.Source

namespace RegisterMachine

section
variable {program : Program} {operation : Operation} {w : Workspace} {token text : String}
  {address : UInt64} {value : Int64} {fault : Text.IntegerFault}

end

end RegisterMachine

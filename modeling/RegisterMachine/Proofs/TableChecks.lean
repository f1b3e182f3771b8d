import Mathlib.Order.Bounds.Basic
import Mathlib.Order.WellFounded
import RegisterMachine.Proofs.Tables

namespace RegisterMachine

namespace Descriptor

/-- The rules for a descriptor. -/
inductive Rule where
  | word
  | unsigilled
  | operand
  | modes
  deriving DecidableEq, Repr

namespace Rule

/-- The place of a rule in the order in which they are checked. -/
def place : Rule → Nat
  | word => 1
  | unsigilled => 2
  | operand => 3
  | modes => 4

/-- What is wrong with a mnemonic whose descriptor breaks a rule. -/
def problem (mnemonic : String) : Rule → Problem
  | word => .invalidMnemonic mnemonic
  | unsigilled => .sigilMnemonic mnemonic
  | operand => .labelAndNumber mnemonic
  | modes => .modesWithoutNumber mnemonic

/-- What is said of a mnemonic whose descriptor breaks a rule. -/
def complaint (mnemonic : String) : Rule → String
  | word => "invalid mnemonic '" ++ mnemonic ++ "'"
  | unsigilled => "mnemonic '" ++ mnemonic ++ "' starts with an addressing sigil"
  | operand => mnemonic ++ " cannot take both a jump label and a numeric argument"
  | modes => mnemonic ++ " allows addressing modes but takes no numeric argument"

end Rule

def Keeps (descriptor : Descriptor) : Rule → Prop
  | .word => Text.IsWord descriptor.mnemonic
  | .unsigilled => descriptor.mnemonic.toList.head? ≠ some '*' ∧
      descriptor.mnemonic.toList.head? ≠ some '='
  | .operand => ¬ (descriptor.takesLabel = true ∧ descriptor.takesNumber = true)
  | .modes => descriptor.takesNumber = false →
      descriptor.allowsDirect = false ∧ descriptor.allowsPointer = false

/-- Of the rules that a descriptor breaks, this one is checked first. -/
def FirstBroken (descriptor : Descriptor) (rule : Rule) : Prop :=
  ¬ descriptor.Keeps rule ∧
    ∀ earlier : Rule, earlier.place < rule.place → descriptor.Keeps earlier

theorem sound_iff {descriptor : Descriptor} :
    descriptor.Sound ↔ ∀ rule, descriptor.Keeps rule := by
  constructor
  · intro h rule
    cases rule with
    | word => exact h.word
    | unsigilled => exact h.unsigilled
    | operand => exact h.operand
    | modes => exact h.modes
  · intro h
    exact ⟨h .word, h .unsigilled, h .operand, h .modes⟩

/-- The flaw of a descriptor is the first rule that it breaks. -/
theorem flaw?_of_firstBroken {descriptor : Descriptor} {rule : Rule}
    (h : descriptor.FirstBroken rule) :
    descriptor.flaw? = some (rule.problem descriptor.mnemonic) := by
  have hword : (descriptor.mnemonic.toList.isEmpty ||
      descriptor.mnemonic.toList.any Text.isBlank) = true ↔ ¬ descriptor.Keeps .word := by
    simp [Keeps, Text.IsWord, imp_iff_not_or]
  have hsigil : (descriptor.mnemonic.toList.head? = some '*' ||
      descriptor.mnemonic.toList.head? = some '=') = true ↔ ¬ descriptor.Keeps .unsigilled := by
    simp [Keeps, imp_iff_not_or]
  have hoperand : (descriptor.takesLabel && descriptor.takesNumber) = true ↔
      ¬ descriptor.Keeps .operand := by
    simp [Keeps]
  have hmodes : (!descriptor.takesNumber && (descriptor.allowsDirect ||
      descriptor.allowsPointer)) = true ↔ ¬ descriptor.Keeps .modes := by
    simp [Keeps, imp_iff_not_or]
  obtain ⟨hbroken, hearlier⟩ := h
  have hkept : ∀ earlier : Rule, earlier.place < rule.place → ¬ ¬ descriptor.Keeps earlier :=
    fun earlier hplace => not_not_intro (hearlier earlier hplace)
  unfold flaw?
  cases rule with
  | word => exact if_pos (hword.mpr hbroken)
  | unsigilled =>
    rw [if_neg (mt hword.mp (hkept .word (by decide))), if_pos (hsigil.mpr hbroken)]
    rfl
  | operand =>
    rw [if_neg (mt hword.mp (hkept .word (by decide))),
      if_neg (mt hsigil.mp (hkept .unsigilled (by decide))), if_pos (hoperand.mpr hbroken)]
    rfl
  | modes =>
    rw [if_neg (mt hword.mp (hkept .word (by decide))),
      if_neg (mt hsigil.mp (hkept .unsigilled (by decide))),
      if_neg (mt hoperand.mp (hkept .operand (by decide))), if_pos (hmodes.mpr hbroken)]
    rfl

theorem exists_firstBroken {descriptor : Descriptor} (h : ¬ descriptor.Sound) :
    ∃ rule, descriptor.FirstBroken rule := by
  obtain ⟨rule, hbroken⟩ := not_forall.mp (mt sound_iff.mpr h)
  obtain ⟨first, hfirst, hleast⟩ :=
    (measure Rule.place).wf.has_min {rule | ¬ descriptor.Keeps rule} ⟨rule, hbroken⟩
  refine ⟨first, hfirst, ?_⟩
  intro earlier hplace
  by_contra hbroken'
  exact hleast earlier hbroken' hplace

end Descriptor

namespace OpcodeTable

/-- The entry at an index is the first that does not go with those before it. -/
def FirstOffence (policy : CasePolicy) (entries : List Entry) (i : Nat) : Prop :=
  IsLeast {i | i < entries.length ∧ ¬ Consistent policy (entries.take (i + 1))} i

section
variable {policy : CasePolicy} {entries : List Entry} {entry : Entry} {table : OpcodeTable}
  {problem : Problem} {i : Nat}

theorem enter_isOk_iff :
    (∃ index, enter policy ∅ 0 entries = .ok index) ↔ Consistent policy entries := by
  constructor
  · rintro ⟨index, h⟩
    exact consistent_of_enter indexes_nil consistent_nil h
  · intro h
    obtain ⟨passed, -, hrest⟩ :=
      enter_append indexes_nil (show Consistent policy ([] ++ entries) from h)
    refine ⟨passed, ?_⟩
    have hpassed := hrest []
    rwa [List.append_nil] at hpassed

theorem exists_firstOffence (h : ¬ Consistent policy entries) :
    ∃ i, FirstOffence policy entries i := by
  -- The last index is one up to which the entries do not go together, unless there are none.
  have hlength : entries.length ≠ 0 := by
    intro hzero
    rw [List.length_eq_zero_iff.mp hzero] at h
    exact h ⟨by simp, .nil⟩
  have hlast : entries.length - 1 + 1 = entries.length := by omega
  obtain ⟨i, hi, hleast⟩ := wellFounded_lt.has_min
    {i | i < entries.length ∧ ¬ Consistent policy (entries.take (i + 1))}
    ⟨entries.length - 1, by omega, by rwa [hlast, List.take_length]⟩
  exact ⟨i, hi, fun j hj => Nat.le_of_not_lt (hleast j hj)⟩

/-- Up to the first offence the entries go together. -/
theorem FirstOffence.split (h : FirstOffence policy entries i) :
    ∃ entry, entries[i]? = some entry ∧ Consistent policy (entries.take i) ∧
      ¬ Consistent policy (entries.take i ++ [entry]) ∧
      entries = entries.take i ++ entry :: entries.drop (i + 1) := by
  obtain ⟨⟨hi, hoffence⟩, hleast⟩ := h
  refine ⟨entries[i], List.getElem?_eq_getElem hi, ?_, ?_, ?_⟩
  · cases i with
    | zero => exact ⟨by simp, by simp⟩
    | succ j =>
      by_contra hbefore
      have hle := hleast ⟨by omega, hbefore⟩
      omega
  · rwa [List.take_append_getElem]
  · rw [List.getElem_cons_drop, List.take_append_drop]

/-- The loop stops at the first offence with the problem of that entry. -/
theorem FirstOffence.enter_eq_error (h : FirstOffence policy entries i) :
    ∃ entry, entries[i]? = some entry ∧ enter policy ∅ 0 entries =
      .error ((entry.descriptor.flaw?).getD (.duplicateOpcode entry.descriptor.mnemonic)) := by
  obtain ⟨entry, hentry, hbefore, hoffence, hsplit⟩ := h.split
  obtain ⟨passed, hindex, hrest⟩ :=
    enter_append indexes_nil (show Consistent policy ([] ++ entries.take i) from hbefore)
  refine ⟨entry, hentry, ?_⟩
  have hpassed := hrest (entry :: entries.drop (i + 1))
  rw [← hsplit] at hpassed
  exact hpassed.trans (enter_cons_of_offence hindex hbefore hoffence)

theorem build_of_problem (h : enter policy ∅ 0 entries = .error problem) :
    build policy entries = .error (problem.fault.raisedIn "registry::new") := by
  unfold build
  split
  · rename_i hindex
    cases hindex.symm.trans h
  · rename_i hproblem
    cases hproblem.symm.trans h
    rfl

theorem build_eq_ok_iff :
    build policy entries = .ok table ↔ table.policy = policy ∧ table.entries = entries := by
  constructor
  · intro h
    unfold build at h
    split at h
    · cases h
      exact ⟨rfl, rfl⟩
    · cases h
  · rintro ⟨rfl, rfl⟩
    exact table.build_eq

/-- The fault that reports an entry names its mnemonic. It says which rule the descriptor breaks
first, or else that the mnemonic is taken. -/
structure Reports (entry : Entry) (fault : Fault) : Prop where
  mnemonic : fault.note? "mnemonic" = some entry.descriptor.mnemonic
  notes : fault.notes = [("mnemonic", entry.descriptor.mnemonic)]
  tier : fault.tier = .configuration
  origin : fault.origin = "registry::new"
  cause : fault.cause = none
  broken : ¬ entry.descriptor.Sound → ∃ rule, entry.descriptor.FirstBroken rule ∧
    fault.kind = .configInvalid ∧ fault.message = rule.complaint entry.descriptor.mnemonic
  taken : entry.descriptor.Sound → fault.kind = .duplicateOpcode ∧
    fault.message = "duplicate definition for '" ++ entry.descriptor.mnemonic ++ "'"

theorem reports_rule {rule : Descriptor.Rule} (h : entry.descriptor.FirstBroken rule) :
    Reports entry
      ((rule.problem entry.descriptor.mnemonic).fault.raisedIn "registry::new") := by
  have hunsound : ¬ entry.descriptor.Sound := fun hsound =>
    h.1 (Descriptor.sound_iff.mp hsound rule)
  cases rule <;>
    exact ⟨rfl, rfl, rfl, rfl, rfl, fun _ => ⟨_, h, rfl, rfl⟩, fun hsound => absurd hsound hunsound⟩

theorem reports_taken (h : entry.descriptor.Sound) :
    Reports entry
      ((Problem.duplicateOpcode entry.descriptor.mnemonic).fault.raisedIn "registry::new") where
  mnemonic := rfl
  notes := rfl
  tier := rfl
  origin := rfl
  cause := rfl
  broken hunsound := absurd h hunsound
  taken _ := ⟨rfl, rfl⟩

theorem FirstOffence.build_eq_error (h : FirstOffence policy entries i) :
    ∃ entry fault, entries[i]? = some entry ∧ build policy entries = .error fault ∧
      Reports entry fault := by
  obtain ⟨entry, hentry, hproblem⟩ := h.enter_eq_error
  refine ⟨entry, _, hentry, build_of_problem hproblem, ?_⟩
  by_cases hsound : entry.descriptor.Sound
  · rw [Descriptor.flaw?_eq_none_iff.mpr hsound]
    exact reports_taken hsound
  · obtain ⟨rule, hrule⟩ := Descriptor.exists_firstBroken hsound
    rw [Descriptor.flaw?_of_firstBroken hrule]
    exact reports_rule hrule

/-- A table knows the words that have the key of one entry. -/
theorem known_iff_existsUnique {word : String} :
    table.Known word ↔ ∃! i : Nat, ∃ entry, table.entries[i]? = some entry ∧
      table.policy.Same entry.descriptor.mnemonic word := by
  simp only [← CasePolicy.key_eq_iff]
  constructor
  · rintro ⟨_, entry, hmem, -, hkey⟩
    obtain ⟨i, hi⟩ := List.mem_iff_getElem?.mp hmem
    refine ⟨i, ⟨entry, hi, hkey⟩, ?_⟩
    rintro j ⟨other, hj, hother⟩
    exact index_eq_of_key_eq hj hi (hother.trans hkey.symm)
  · rintro ⟨i, ⟨entry, hi, hkey⟩, -⟩
    exact ⟨entry.descriptor, entry, List.mem_of_getElem? hi, rfl, hkey⟩

theorem known_iff_isSome {word : String} :
    table.Known word ↔ (table.resolve? word).isSome = true := by
  simp only [Known, ← resolve?_eq_some_iff, Option.isSome_iff_exists]

end

/-- A table is built from its entries exactly when they go together. If they do not, the first one
that does not go with those before it is reported, with the first rule that its descriptor breaks
or else with its mnemonic as taken. A table that is built keeps its entries in their order, has the
place of each of them under its key, and knows a word exactly when one of them is the same under
the policy, and then by that entry. -/
theorem build_checks_consistency (policy : CasePolicy) (entries : List Entry) :
    ((∃ table, build policy entries = .ok table) ↔ Consistent policy entries) ∧
    (¬ Consistent policy entries → ∃ i entry fault, FirstOffence policy entries i ∧
      entries[i]? = some entry ∧ build policy entries = .error fault ∧ Reports entry fault) ∧
    (∀ table, build policy entries = .ok table →
      table.descriptors = entries.map Entry.descriptor ∧
      (∀ key (i : Nat), table.index[key]? = some i ↔ ∃ entry, entries[i]? = some entry ∧
        policy.KeyedBy entry.descriptor.mnemonic key) ∧
      (∀ word, (table.contains word = true ↔ (table.resolve? word).isSome = true) ∧
        ((table.resolve? word).isSome = true ↔ ∃! i : Nat, ∃ entry, entries[i]? = some entry ∧
          policy.Same entry.descriptor.mnemonic word)) ∧
      (∀ entry ∈ entries, ∀ word, policy.Same entry.descriptor.mnemonic word →
        table.resolve? word = some entry.descriptor) ∧
      (∀ entry ∈ entries, table.resolve? entry.descriptor.mnemonic = some entry.descriptor)) := by
  refine ⟨⟨?_, ?_⟩, ?_, ?_⟩
  · rintro ⟨table, hbuild⟩
    obtain ⟨rfl, rfl⟩ := build_eq_ok_iff.mp hbuild
    exact table.consistent
  · intro h
    obtain ⟨index, hindex⟩ := enter_isOk_iff.mpr h
    exact ⟨⟨policy, entries, index, hindex⟩, build_eq_ok_iff.mpr ⟨rfl, rfl⟩⟩
  · intro h
    obtain ⟨i, hi⟩ := exists_firstOffence h
    obtain ⟨entry, fault, hentry, hbuild, hreports⟩ := hi.build_eq_error
    exact ⟨i, entry, fault, hi, hentry, hbuild, hreports⟩
  · intro table hbuild
    obtain ⟨rfl, rfl⟩ := build_eq_ok_iff.mp hbuild
    have hresolve : ∀ entry ∈ table.entries, ∀ word,
        table.policy.key entry.descriptor.mnemonic = table.policy.key word →
          table.resolve? word = some entry.descriptor := by
      intro entry hmem word hkey
      exact resolve?_eq_some_iff.mpr ⟨entry, hmem, rfl, hkey⟩
    refine ⟨rfl, ?_, ?_, ?_, fun entry hmem => hresolve entry hmem _ rfl⟩
    · simp only [CasePolicy.keyedBy_iff]
      exact table.indexes
    · intro word
      rw [contains_iff, ← known_iff_isSome]
      exact ⟨Iff.rfl, known_iff_existsUnique⟩
    · intro entry hmem word hsame
      exact hresolve entry hmem word (CasePolicy.key_eq_iff.mpr hsame)

end OpcodeTable

end RegisterMachine

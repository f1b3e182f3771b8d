import RegisterMachine.OpcodeTable
import RegisterMachine.Proofs.Words

namespace RegisterMachine

/-- The rules for descriptors: the mnemonic is one word and starts with no sigil, the operand is
not both label and number, and modes belong to a number. -/
structure Descriptor.Sound (descriptor : Descriptor) : Prop where
  word : Text.IsWord descriptor.mnemonic
  unsigilled : descriptor.mnemonic.toList.head? ≠ some '*' ∧
    descriptor.mnemonic.toList.head? ≠ some '='
  operand : ¬ (descriptor.takesLabel = true ∧ descriptor.takesNumber = true)
  modes : descriptor.takesNumber = false →
    descriptor.allowsDirect = false ∧ descriptor.allowsPointer = false

theorem Descriptor.flaw?_eq_none_iff {descriptor : Descriptor} :
    descriptor.flaw? = none ↔ descriptor.Sound := by
  have hword : ¬ (descriptor.mnemonic.toList.isEmpty ||
      descriptor.mnemonic.toList.any Text.isBlank) = true ↔ Text.IsWord descriptor.mnemonic := by
    simp [Text.IsWord]
  have hite : ∀ (c : Prop) [Decidable c] (problem : Problem) (rest : Option Problem),
      (if c then some problem else rest) = none ↔ ¬ c ∧ rest = none := by
    intro c _ problem rest
    split <;> simp_all
  simp only [flaw?, hite, hword, and_true]
  constructor
  · rintro ⟨hw, hs, ho, hm⟩
    exact ⟨hw, by simpa using hs, by simpa using ho, by simpa using hm⟩
  · intro h
    exact ⟨h.word, by simpa using h.unsigilled, by simpa using h.operand, by simpa using h.modes⟩

/-- Two mnemonics are the same under a policy: letter by letter, or when the letters from `a` to
`z` are raised to capitals. -/
def CasePolicy.Same : CasePolicy → String → String → Prop
  | .sensitive, mnemonic, other => mnemonic = other
  | .insensitive, mnemonic, other =>
    mnemonic.toList.map Char.toUpper = other.toList.map Char.toUpper

theorem CasePolicy.key_eq_iff {policy : CasePolicy} {mnemonic other : String} :
    policy.key mnemonic = policy.key other ↔ policy.Same mnemonic other := by
  cases policy with
  | sensitive => exact Iff.rfl
  | insensitive => simp [key, Same, ← String.toList_inj]

/-- The key of a mnemonic under a policy: its own letters, or these with `a` to `z` raised to
capitals. -/
def CasePolicy.KeyedBy : CasePolicy → String → String → Prop
  | .sensitive, mnemonic, key => key = mnemonic
  | .insensitive, mnemonic, key => key.toList = mnemonic.toList.map Char.toUpper

theorem CasePolicy.keyedBy_iff {policy : CasePolicy} {mnemonic key : String} :
    policy.KeyedBy mnemonic key ↔ policy.key mnemonic = key := by
  cases policy with
  | sensitive => exact eq_comm
  | insensitive => rw [KeyedBy, CasePolicy.key, ← String.toList_inj, Text.toList_foldCase, eq_comm]

namespace OpcodeTable

/-- Entries that go together: each descriptor keeps the rules, and no two mnemonics are the same
under the policy. -/
structure Consistent (policy : CasePolicy) (entries : List Entry) : Prop where
  sound : ∀ entry ∈ entries, entry.descriptor.Sound
  distinct : entries.Pairwise fun first second =>
    ¬ policy.Same first.descriptor.mnemonic second.descriptor.mnemonic

/-- An index has the place of each entry under its key, and nothing else. -/
def Indexes (policy : CasePolicy) (index : Std.TreeMap String Nat) (entries : List Entry) : Prop :=
  ∀ key place, index[key]? = some place ↔
    ∃ entry : Entry, entries[place]? = some entry ∧ entry.key policy = key

section
variable {policy : CasePolicy} {index after : Std.TreeMap String Nat}
  {before middle rest : List Entry} {entry : Entry}

theorem consistent_nil : Consistent policy [] :=
  ⟨nofun, .nil⟩

theorem indexes_nil : Indexes policy ∅ [] := by
  simp [Indexes]

theorem Indexes.contains_iff (h : Indexes policy index before) (key : String) :
    index.contains key = true ↔ key ∈ before.map (Entry.key policy) := by
  rw [Std.TreeMap.contains_eq_isSome_getElem?, Option.isSome_iff_exists, List.mem_map]
  constructor
  · rintro ⟨place, hplace⟩
    obtain ⟨entry, hentry, hkey⟩ := (h key place).mp hplace
    exact ⟨entry, List.mem_of_getElem? hentry, hkey⟩
  · rintro ⟨entry, hmem, hkey⟩
    obtain ⟨place, hentry⟩ := List.mem_iff_getElem?.mp hmem
    exact ⟨place, (h key place).mpr ⟨entry, hentry, hkey⟩⟩

/-- A new key is entered under the place behind those that are there. -/
theorem Indexes.insert (h : Indexes policy index before)
    (hnew : entry.key policy ∉ before.map (Entry.key policy)) :
    Indexes policy (index.insert (entry.key policy) before.length) (before ++ [entry]) := by
  intro key place
  rw [Std.TreeMap.getElem?_insert]
  simp only [Std.LawfulEqCmp.compare_eq_iff_eq]
  have hlast : (before ++ [entry])[before.length]? = some entry := by simp
  split
  · rename_i hkey
    constructor
    · intro hplace
      cases hplace
      exact ⟨entry, hlast, hkey⟩
    · rintro ⟨other, hother, hsame⟩
      rcases Nat.lt_or_ge place before.length with hlt | hge
      · rw [List.getElem?_append_left hlt] at hother
        have hknown := List.mem_map.mpr ⟨other, List.mem_of_getElem? hother, hsame.trans hkey.symm⟩
        exact absurd hknown hnew
      · have hbound := (List.getElem?_eq_some_iff.mp hother).1
        rw [List.length_append, List.length_singleton] at hbound
        rw [Nat.le_antisymm hge (Nat.le_of_lt_succ hbound)]
  · rename_i hkey
    rw [h]
    constructor
    · rintro ⟨other, hother, hsame⟩
      have hlt := (List.getElem?_eq_some_iff.mp hother).1
      exact ⟨other, (List.getElem?_append_left hlt).trans hother, hsame⟩
    · rintro ⟨other, hother, hsame⟩
      rcases Nat.lt_or_ge place before.length with hlt | hge
      · exact ⟨other, (List.getElem?_append_left hlt).symm.trans hother, hsame⟩
      · have hbound := (List.getElem?_eq_some_iff.mp hother).1
        rw [List.length_append, List.length_singleton] at hbound
        rw [← Nat.le_antisymm hge (Nat.le_of_lt_succ hbound), hlast] at hother
        cases hother
        exact absurd hsame hkey

/-- An entry that is sound and whose key is new goes with those before it, and no other does. -/
theorem consistent_concat_iff (h : Consistent policy before) :
    Consistent policy (before ++ [entry]) ↔
      entry.descriptor.Sound ∧ entry.key policy ∉ before.map (Entry.key policy) := by
  have hdistinct : (∀ first ∈ before,
      ¬ policy.Same first.descriptor.mnemonic entry.descriptor.mnemonic) ↔
        entry.key policy ∉ before.map (Entry.key policy) := by
    simp only [← CasePolicy.key_eq_iff, List.mem_map, not_exists, not_and]
    rfl
  constructor
  · intro hall
    refine ⟨hall.sound entry (by simp), hdistinct.mp ?_⟩
    intro first hfirst
    exact (List.pairwise_append.mp hall.distinct).2.2 first hfirst entry (by simp)
  · rintro ⟨hsound, hnew⟩
    refine ⟨?_, List.pairwise_append.mpr ⟨h.distinct, List.pairwise_singleton .., ?_⟩⟩
    · intro other hmem
      rcases List.mem_append.mp hmem with hmem | hmem
      · exact h.sound other hmem
      · rw [List.mem_singleton.mp hmem]
        exact hsound
    · intro first hfirst second hsecond
      rw [List.mem_singleton.mp hsecond]
      exact hdistinct.mpr hnew first hfirst

theorem Consistent.take (h : Consistent policy (before ++ rest)) : Consistent policy before :=
  ⟨fun entry hmem => h.sound entry (List.mem_append_left _ hmem),
    (List.pairwise_append.mp h.distinct).1⟩

theorem enter_cons (policy : CasePolicy) (index : Std.TreeMap String Nat) (place : Nat)
    (entry : Entry) (rest : List Entry) :
    enter policy index place (entry :: rest) =
      match entry.descriptor.flaw? with
      | some problem => .error problem
      | none =>
        if index.contains (entry.key policy) then
          .error (.duplicateOpcode entry.descriptor.mnemonic)
        else enter policy (index.insert (entry.key policy) place) (place + 1) rest := by
  cases hflaw : entry.descriptor.flaw? with
  | some problem => simp only [enter, hflaw]
  | none =>
    simp only [enter, hflaw, Std.TreeMap.containsThenInsert_fst,
      Std.TreeMap.containsThenInsert_snd]

/-- An entry that goes with those before it is entered behind them. -/
theorem enter_cons_of_consistent (hindex : Indexes policy index before)
    (hbefore : Consistent policy before) (h : Consistent policy (before ++ [entry])) :
    enter policy index before.length (entry :: rest) =
      enter policy (index.insert (entry.key policy) before.length) (before ++ [entry]).length
        rest := by
  obtain ⟨hsound, hnew⟩ := (consistent_concat_iff hbefore).mp h
  rw [← hindex.contains_iff] at hnew
  rw [enter_cons, Descriptor.flaw?_eq_none_iff.mpr hsound]
  simp only [hnew, Bool.false_eq_true, if_false, List.length_append, List.length_singleton]

/-- The loop stops at an entry that does not go with those before it. -/
theorem enter_cons_of_offence (hindex : Indexes policy index before)
    (hbefore : Consistent policy before) (h : ¬ Consistent policy (before ++ [entry])) :
    enter policy index before.length (entry :: rest) =
      .error ((entry.descriptor.flaw?).getD (.duplicateOpcode entry.descriptor.mnemonic)) := by
  rw [enter_cons]
  cases hflaw : entry.descriptor.flaw? with
  | some problem => rfl
  | none =>
    have htaken : index.contains (entry.key policy) = true := by
      rw [hindex.contains_iff]
      refine Classical.byContradiction fun hnew => h ((consistent_concat_iff hbefore).mpr ?_)
      exact ⟨Descriptor.flaw?_eq_none_iff.mp hflaw, hnew⟩
    simp only [htaken, if_true, Option.getD_none]

/-- Entries that go together are passed, and the index has them all. -/
theorem enter_append (hindex : Indexes policy index before)
    (h : Consistent policy (before ++ middle)) :
    ∃ passed, Indexes policy passed (before ++ middle) ∧ ∀ rest,
      enter policy index before.length (middle ++ rest) =
        enter policy passed (before ++ middle).length rest := by
  induction middle generalizing before index with
  | nil => exact ⟨index, by rwa [List.append_nil], fun rest => by rw [List.append_nil]; rfl⟩
  | cons entry middle ih =>
    have hentry : Consistent policy (before ++ [entry]) := by
      rw [List.append_cons] at h
      exact h.take
    have hbefore := h.take
    have hindex' := hindex.insert ((consistent_concat_iff hbefore).mp hentry).2
    obtain ⟨passed, hpassed, hrest⟩ := ih hindex' (by rwa [← List.append_cons])
    rw [← List.append_cons] at hpassed hrest
    refine ⟨passed, hpassed, ?_⟩
    intro rest
    rw [List.cons_append, enter_cons_of_consistent hindex hbefore hentry, hrest]

/-- Entries that are all entered go together. -/
theorem consistent_of_enter (hindex : Indexes policy index before)
    (hbefore : Consistent policy before)
    (h : enter policy index before.length rest = .ok after) :
    Consistent policy (before ++ rest) := by
  induction rest generalizing before index with
  | nil => rwa [List.append_nil]
  | cons entry rest ih =>
    by_cases hentry : Consistent policy (before ++ [entry])
    · rw [enter_cons_of_consistent hindex hbefore hentry] at h
      rw [List.append_cons]
      exact ih (hindex.insert ((consistent_concat_iff hbefore).mp hentry).2) hentry h
    · rw [enter_cons_of_offence hindex hbefore hentry] at h
      cases h

end

section
variable {table : OpcodeTable} {entry : Entry} {word : String} {descriptor : Descriptor}

/-- Entries that make a table are built into it. -/
theorem build_eq (table : OpcodeTable) : build table.policy table.entries = .ok table := by
  obtain ⟨policy, entries, index, entered⟩ := table
  unfold build
  split
  · rename_i built hbuilt
    cases hbuilt.symm.trans entered
    rfl
  · rename_i hproblem
    cases hproblem.symm.trans entered

theorem consistent (table : OpcodeTable) : Consistent table.policy table.entries :=
  consistent_of_enter indexes_nil consistent_nil table.entered

/-- The index of a table matches its entries. -/
theorem indexes (table : OpcodeTable) : Indexes table.policy table.index table.entries := by
  obtain ⟨passed, hpassed, hrest⟩ :=
    enter_append indexes_nil (show Consistent table.policy ([] ++ table.entries) from
      table.consistent)
  have hentered := hrest []
  rw [List.append_nil] at hentered
  cases hentered.symm.trans table.entered
  exact hpassed

theorem sound_of_mem (h : entry ∈ table.entries) : entry.descriptor.Sound :=
  table.consistent.sound entry h

/-- No two indices have the same key. -/
theorem index_eq_of_key_eq {other : Entry} {i j : Nat} (hi : table.entries[i]? = some entry)
    (hj : table.entries[j]? = some other)
    (hkey : entry.key table.policy = other.key table.policy) : i = j := by
  have hplace := (table.indexes (entry.key table.policy) i).mpr ⟨entry, hi, rfl⟩
  have hplace' := (table.indexes (entry.key table.policy) j).mpr ⟨other, hj, hkey.symm⟩
  exact Option.some.inj (hplace.symm.trans hplace')

/-- The entry that is found under a word is the one entry with its key. -/
theorem find?_eq_some_iff :
    table.find? word = some entry ↔
      entry ∈ table.entries ∧ entry.key table.policy = table.policy.key word := by
  have hfind : table.find? word = some entry ↔
      ∃ place, table.index[table.policy.key word]? = some place ∧
        table.entries[place]? = some entry :=
    Option.bind_eq_some_iff
  rw [hfind]
  constructor
  · rintro ⟨place, hplace, hentry⟩
    obtain ⟨found, hfound, hkey⟩ := (table.indexes _ _).mp hplace
    cases hfound.symm.trans hentry
    exact ⟨List.mem_of_getElem? hentry, hkey⟩
  · rintro ⟨hmem, hkey⟩
    obtain ⟨place, hentry⟩ := List.mem_iff_getElem?.mp hmem
    exact ⟨place, (table.indexes _ _).mpr ⟨entry, hentry, hkey⟩, hentry⟩

/-- The index has no key without an entry. -/
theorem contains_eq_isSome (table : OpcodeTable) (word : String) :
    table.contains word = (table.find? word).isSome := by
  rw [Bool.eq_iff_iff, contains, table.indexes.contains_iff, Option.isSome_iff_exists]
  simp only [find?_eq_some_iff, List.mem_map]

/-- A word is the mnemonic of an entry with this descriptor, in a spelling that the policy
admits. -/
def Declares (table : OpcodeTable) (word : String) (descriptor : Descriptor) : Prop :=
  ∃ entry ∈ table.entries, entry.descriptor = descriptor ∧
    entry.key table.policy = table.policy.key word

def Known (table : OpcodeTable) (word : String) : Prop :=
  ∃ descriptor, table.Declares word descriptor

theorem resolve?_eq_some_iff :
    table.resolve? word = some descriptor ↔ table.Declares word descriptor := by
  simp only [resolve?, Option.map_eq_some_iff, find?_eq_some_iff, Declares]
  constructor
  · rintro ⟨entry, ⟨hmem, hkey⟩, hdescriptor⟩
    exact ⟨entry, hmem, hdescriptor, hkey⟩
  · rintro ⟨entry, hmem, hdescriptor, hkey⟩
    exact ⟨entry, ⟨hmem, hkey⟩, hdescriptor⟩

theorem resolve?_eq_none_iff : table.resolve? word = none ↔ ¬ table.Known word := by
  simp [Known, ← resolve?_eq_some_iff, ← Option.isSome_iff_exists]

theorem contains_iff : table.contains word = true ↔ table.Known word := by
  simp only [contains_eq_isSome, Known, ← resolve?_eq_some_iff, ← Option.isSome_iff_exists,
    resolve?, Option.isSome_map]

/-- A mnemonic leads to one descriptor. -/
theorem Declares.unique {other : Descriptor} (h : table.Declares word descriptor)
    (h' : table.Declares word other) : descriptor = other :=
  Option.some.inj ((resolve?_eq_some_iff.mpr h).symm.trans (resolve?_eq_some_iff.mpr h'))

theorem Declares.sound (h : table.Declares word descriptor) : descriptor.Sound := by
  obtain ⟨entry, hmem, rfl, _⟩ := h
  exact sound_of_mem hmem

end

end OpcodeTable

end RegisterMachine

import RegisterMachine.Proofs.Arguments

namespace RegisterMachine.Source

/-- A word defines a label: the name stands before a colon, or is all of a word that ends with no
colon. -/
def Labels (word name : String) : Prop :=
  word = name ++ ":" ∨ word = name ∧ word.toList.getLast? ≠ some ':'

/-- The words of an operation: a mnemonic and arguments that fit it, and before them a label, if
the first word is no mnemonic. -/
inductive Sentence (table : OpcodeTable) : List String → Instruction → Prop
  | plain {mnemonic : String} {arguments : List String} {descriptor : Descriptor}
      {instruction : Instruction} (known : table.Declares mnemonic descriptor)
      (fits : Fits descriptor arguments instruction) :
      Sentence table (mnemonic :: arguments) instruction
  | labelled {word name mnemonic : String} {arguments : List String} {descriptor : Descriptor}
      {instruction : Instruction} (unknown : ¬ table.Known word) (labels : Labels word name)
      (named : name ≠ "") (known : table.Declares mnemonic descriptor)
      (fits : Fits descriptor arguments instruction) :
      Sentence table (word :: mnemonic :: arguments) { instruction with label := some name }

/-- Where the words of a line have a mnemonic: first, or behind a word that is none. -/
inductive Placed (table : OpcodeTable) : List String → String → List String → Prop
  | first {mnemonic : String} {arguments : List String} (known : table.Known mnemonic) :
      Placed table (mnemonic :: arguments) mnemonic arguments
  | second {word mnemonic : String} {arguments : List String} (unknown : ¬ table.Known word) :
      Placed table (word :: mnemonic :: arguments) mnemonic arguments

/-- A rule that words break, whatever other rules they break, and the problem with them. -/
inductive Breaks (table : OpcodeTable) : List String → Rule → Problem → Prop
  | blank : Breaks table [] .someWord .emptyLine
  | lone {word : String} (unknown : ¬ table.Known word) :
      Breaks table [word] .opcodeFollows (.unknownOpcode word)
  | unnamed {word : String} {rest : List String} (unknown : ¬ table.Known word)
      (labels : Labels word "") : Breaks table (word :: rest) .labelNamed .emptyLabel
  | unknown {words arguments : List String} {mnemonic : String}
      (placed : Placed table words mnemonic arguments) (unknown : ¬ table.Known mnemonic) :
      Breaks table words .opcodeKnown (.unknownOpcode mnemonic)
  | misfit {words arguments : List String} {mnemonic : String} {descriptor : Descriptor}
      {rule : Rule} {problem : Problem} (placed : Placed table words mnemonic arguments)
      (known : table.Declares mnemonic descriptor)
      (misfits : Misfits descriptor arguments rule problem) : Breaks table words rule problem

theorem labels_iff {word name : String} : Labels word name ↔ labelName word = name := by
  unfold labelName Labels
  constructor
  · rintro (rfl | ⟨rfl, hlast⟩)
    · simp
    · rw [if_neg hlast]
  · intro h
    split at h
    · rename_i hlast
      obtain ⟨front, hfront⟩ := List.getLast?_eq_some_iff.mp hlast
      rw [hfront, List.dropLast_concat] at h
      subst h
      exact .inl (String.toList_inj.mp (by simpa using hfront))
    · rename_i hlast
      exact .inr ⟨h, hlast⟩

section
variable {table : OpcodeTable} {words arguments : List String} {mnemonic word : String}
  {descriptor : Descriptor} {instruction : Instruction} {rule : Rule} {problem : Problem}

theorem Placed.unique {other : String} {rest : List String}
    (h : Placed table words mnemonic arguments) (h' : Placed table words other rest) :
    mnemonic = other ∧ arguments = rest := by
  cases h with
  | first known =>
    cases h' with
    | first _ => exact ⟨rfl, rfl⟩
    | second unknown => exact absurd known unknown
  | second unknown =>
    cases h' with
    | first known => exact absurd known unknown
    | second _ => exact ⟨rfl, rfl⟩

theorem readOpcode_of_declares (h : table.Declares mnemonic descriptor) :
    readOpcode table mnemonic arguments = readArguments descriptor arguments := by
  simp only [readOpcode, OpcodeTable.resolve?_eq_some_iff.mpr h]

theorem readOpcode_of_unknown (h : ¬ table.Known mnemonic) :
    readOpcode table mnemonic arguments = .error (.unknownOpcode mnemonic) := by
  simp only [readOpcode, OpcodeTable.resolve?_eq_none_iff.mpr h]

theorem readWords_first (h : table.Known mnemonic) :
    readWords table (mnemonic :: arguments) = readOpcode table mnemonic arguments := by
  simp only [readWords, OpcodeTable.contains_iff.mpr h, if_true]

theorem readWords_lone (h : ¬ table.Known word) :
    readWords table [word] = .error (.unknownOpcode word) := by
  have hc : ¬ table.contains word = true := fun hc => h (OpcodeTable.contains_iff.mp hc)
  simp only [readWords, if_neg hc]

theorem readWords_unnamed (h : ¬ table.Known word) (hl : Labels word "") :
    readWords table (word :: mnemonic :: arguments) = .error .emptyLabel := by
  have hc : ¬ table.contains word = true := fun hc => h (OpcodeTable.contains_iff.mp hc)
  simp only [readWords, if_neg hc, labels_iff.mp hl, if_true]

theorem readWords_second {name : String} (h : ¬ table.Known word) (hl : Labels word name)
    (hn : name ≠ "") :
    readWords table (word :: mnemonic :: arguments) =
      (readOpcode table mnemonic arguments).map fun instruction =>
        { instruction with label := some name } := by
  have hc : ¬ table.contains word = true := fun hc => h (OpcodeTable.contains_iff.mp hc)
  simp only [readWords, if_neg hc, labels_iff.mp hl, if_neg hn]

theorem Sentence.readWords_eq (h : Sentence table words instruction) :
    readWords table words = .ok instruction := by
  cases h with
  | plain known fits =>
    rw [readWords_first ⟨_, known⟩, readOpcode_of_declares known,
      fits.readArguments_eq known.sound]
  | labelled unknown labels named known fits =>
    rw [readWords_second unknown labels named, readOpcode_of_declares known,
      fits.readArguments_eq known.sound]
    rfl

/-- Where there is a mnemonic, only the rules about arguments are left to be broken, and that
about the name of a label. -/
theorem Breaks.behind (h : Breaks table words rule problem)
    (hp : Placed table words mnemonic arguments) (hk : table.Declares mnemonic descriptor) :
    Misfits descriptor arguments rule problem ∨
      rule = .labelNamed ∧ ∃ word rest, words = word :: rest ∧ ¬ table.Known word ∧
        Labels word "" := by
  cases h with
  | blank => cases hp
  | lone unknown =>
    cases hp with
    | first known => exact absurd known unknown
  | @unnamed word rest unknown labels => exact .inr ⟨rfl, word, rest, rfl, unknown, labels⟩
  | unknown placed unknown =>
    obtain ⟨rfl, rfl⟩ := hp.unique placed
    exact absurd ⟨_, hk⟩ unknown
  | misfit placed known misfits =>
    obtain ⟨rfl, rfl⟩ := hp.unique placed
    rw [hk.unique known]
    exact .inl misfits

theorem Sentence.not_breaks (h : Sentence table words instruction) :
    ¬ Breaks table words rule problem := by
  intro hb
  cases h with
  | plain known fits =>
    rcases hb.behind (.first ⟨_, known⟩) known with hm | ⟨_, _, _, heq, hunknown, _⟩
    · exact fits.not_misfits known.sound hm
    · cases heq
      exact hunknown ⟨_, known⟩
  | labelled unknown labels named known fits =>
    rcases hb.behind (.second unknown) known with hm | ⟨_, _, _, heq, _, hempty⟩
    · exact fits.not_misfits known.sound hm
    · cases heq
      exact named ((labels_iff.mp labels).symm.trans (labels_iff.mp hempty))

theorem Breaks.named_le (h : Breaks table (word :: mnemonic :: arguments) rule problem) :
    Rule.labelNamed.place ≤ rule.place := by
  cases h with
  | unnamed _ _ => decide
  | unknown _ _ => decide
  | misfit _ _ misfits => exact Nat.le_trans (by decide) misfits.place_le

/-- Where there is a mnemonic, the first rule that its arguments break is the first that the words
break, unless they have a label without a name. -/
theorem FirstBroken.behind (h : FirstBroken (Misfits descriptor arguments) rule problem)
    (hp : Placed table words mnemonic arguments) (hk : table.Declares mnemonic descriptor)
    (hn : ∀ word rest, words = word :: rest → ¬ table.Known word → ¬ Labels word "") :
    FirstBroken (Breaks table words) rule problem := by
  refine ⟨.misfit hp hk h.1, ?_⟩
  intro other problem' hb
  rcases hb.behind hp hk with hm | ⟨_, word, rest, heq, hunknown, hempty⟩
  · exact h.2 other problem' hm
  · exact absurd hempty (hn word rest heq hunknown)

/-- Words are read as the sentence that they make, or the problem is with the first rule that they
break. -/
def Answered (table : OpcodeTable) (words : List String) : Prop :=
  (∃ instruction, readWords table words = .ok instruction ∧ Sentence table words instruction) ∨
    ∃ rule problem, readWords table words = .error problem ∧
      FirstBroken (Breaks table words) rule problem

theorem answered_blank (table : OpcodeTable) : Answered table [] := by
  refine .inr ⟨.someWord, .emptyLine, rfl, .blank, ?_⟩
  intro other problem _
  cases other <;> decide

theorem answered_plain (hd : table.Declares mnemonic descriptor) (arguments : List String) :
    Answered table (mnemonic :: arguments) := by
  have hread : readWords table (mnemonic :: arguments) = readArguments descriptor arguments := by
    rw [readWords_first ⟨descriptor, hd⟩, readOpcode_of_declares hd]
  rcases readArguments_cases hd.sound arguments with
    ⟨instruction, hok, hfits⟩ | ⟨rule, problem, herror, hfirst⟩
  · exact .inl ⟨instruction, hread.trans hok, .plain hd hfits⟩
  · refine .inr ⟨rule, problem, hread.trans herror, ?_⟩
    refine hfirst.behind (.first ⟨descriptor, hd⟩) hd ?_
    rintro _ _ ⟨⟩ hunknown
    exact absurd ⟨descriptor, hd⟩ hunknown

theorem answered_lone (hw : ¬ table.Known word) : Answered table [word] := by
  refine .inr ⟨_, _, readWords_lone hw, .lone hw, ?_⟩
  intro other problem h
  cases h with
  | lone _ => decide
  | unnamed _ _ => decide
  | unknown _ _ => decide
  | misfit _ _ misfits => exact Nat.le_trans (by decide) misfits.place_le

/-- Behind a label with a name it is the mnemonic that decides, and then its arguments. -/
theorem answered_named (hw : ¬ table.Known word) (hn : ¬ Labels word "") (mnemonic : String)
    (arguments : List String) : Answered table (word :: mnemonic :: arguments) := by
  have hnamed : labelName word ≠ "" := fun h => hn (labels_iff.mpr h)
  have hlabel : readWords table (word :: mnemonic :: arguments) =
      (readOpcode table mnemonic arguments).map fun instruction =>
        { instruction with label := some (labelName word) } :=
    readWords_second hw (labels_iff.mpr rfl) hnamed
  by_cases hmnemonic : table.Known mnemonic
  · obtain ⟨descriptor, hd⟩ := hmnemonic
    rw [readOpcode_of_declares hd] at hlabel
    rcases readArguments_cases hd.sound arguments with
      ⟨instruction, hok, hfits⟩ | ⟨rule, problem, herror, hfirst⟩
    · rw [hok] at hlabel
      exact .inl ⟨_, hlabel, .labelled hw (labels_iff.mpr rfl) hnamed hd hfits⟩
    · rw [herror] at hlabel
      refine .inr ⟨rule, problem, hlabel, hfirst.behind (.second hw) hd ?_⟩
      rintro _ _ ⟨⟩ _
      exact hn
  · rw [readOpcode_of_unknown hmnemonic] at hlabel
    refine .inr ⟨_, _, hlabel, .unknown (.second hw) hmnemonic, ?_⟩
    intro other problem h
    cases h with
    | unnamed _ labels => exact absurd labels hn
    | unknown _ _ => decide
    | misfit _ _ misfits => exact Nat.le_trans (by decide) misfits.place_le

theorem readWords_cases (table : OpcodeTable) (words : List String) : Answered table words := by
  match words with
  | [] => exact answered_blank table
  | word :: rest =>
    by_cases hw : table.Known word
    · obtain ⟨descriptor, hd⟩ := hw
      exact answered_plain hd rest
    · match rest with
      | [] => exact answered_lone hw
      | mnemonic :: arguments =>
        by_cases hn : Labels word ""
        -- The name is looked at before the word behind it.
        · exact .inr ⟨_, _, readWords_unnamed hw hn, .unnamed hw hn, fun _ _ h => h.named_le⟩
        · exact answered_named hw hn mnemonic arguments

theorem Breaks.kind_eq (h : Breaks table words rule problem) : problem.kind = rule.kind := by
  cases h with
  | blank | lone | unnamed | unknown => rfl
  | misfit _ _ misfits => cases misfits <;> rfl

/-- A rule is broken in one way. -/
theorem Breaks.unique {other : Problem} (h : Breaks table words rule problem)
    (h' : Breaks table words rule other) : problem = other := by
  cases h with
  | blank =>
    cases h' with
    | blank => rfl
    | misfit placed _ _ => cases placed
  | lone _ =>
    cases h' with
    | lone _ => rfl
    | misfit _ _ misfits => exact absurd misfits.place_le (by decide)
  | unnamed _ _ =>
    cases h' with
    | unnamed _ _ => rfl
    | misfit _ _ misfits => exact absurd misfits.place_le (by decide)
  | unknown placed _ =>
    cases h' with
    | unknown placed' _ => rw [(placed.unique placed').1]
    | misfit _ _ misfits => exact absurd misfits.place_le (by decide)
  | misfit placed known misfits =>
    rcases h'.behind placed known with misfits' | ⟨rfl, _⟩
    · exact misfits.unique known.sound misfits'
    · exact absurd misfits.place_le (by decide)

theorem FirstBroken.unique {rule' : Rule} {other : Problem}
    (h : FirstBroken (Breaks table words) rule problem)
    (h' : FirstBroken (Breaks table words) rule' other) : rule = rule' ∧ problem = other := by
  have hplace : rule.place = rule'.place := Nat.le_antisymm (h.2 _ _ h'.1) (h'.2 _ _ h.1)
  obtain rfl := Rule.place_injective hplace
  exact ⟨rfl, h.1.unique h'.1⟩

theorem readWords_eq_ok_iff : readWords table words = .ok instruction ↔
    Sentence table words instruction := by
  refine ⟨?_, Sentence.readWords_eq⟩
  intro h
  rcases readWords_cases table words with ⟨found, hok, hsentence⟩ | ⟨_, _, herror, _⟩
  · rw [hok] at h
    cases h
    exact hsentence
  · rw [herror] at h
    cases h

theorem readWords_eq_error_iff : readWords table words = .error problem ↔
    ∃ rule, FirstBroken (Breaks table words) rule problem := by
  rcases readWords_cases table words with ⟨found, hok, hsentence⟩ | ⟨rule, found, herror, hfirst⟩
  · rw [hok]
    simp only [reduceCtorEq, false_iff]
    rintro ⟨_, hb, _⟩
    exact hsentence.not_breaks hb
  · rw [herror]
    constructor
    · rintro ⟨⟩
      exact ⟨rule, hfirst⟩
    · rintro ⟨rule', hfirst'⟩
      rw [(hfirst.unique hfirst').2]

/-- The fault that reports the problem with a line: the problem's own, moved to the tier of
loading, with the number of the line. -/
def lineFault (kind : Fault.Kind) (problem : Problem) (number : Nat) : Fault where
  kind := kind
  message := problem.message
  tier := .load
  origin := "parser::parse_operation"
  notes := problem.notes ++ [("line", Text.natural number)]
  cause := problem.cause

theorem noting_line_eq (problem : Problem) (number : Nat) :
    ((problem.fault.inTier .load).raisedIn "parser::parse_operation").noting "line"
      (Text.natural number) = lineFault problem.kind problem number := rfl

theorem parseOperation_eq_ok_iff {line : String} {number : Nat} {operation : Operation} :
    parseOperation table line number = .ok operation ↔
      ∃ instruction, Sentence table (Text.words line) instruction ∧
        operation = { instruction with raw := line, line := number } := by
  simp only [← readWords_eq_ok_iff, parseOperation]
  cases readWords table (Text.words line) with
  | ok instruction => simp [eq_comm]
  | error problem => simp

theorem parseOperation_eq_error_iff {line : String} {number : Nat} {fault : Fault} :
    parseOperation table line number = .error fault ↔
      ∃ rule problem, FirstBroken (Breaks table (Text.words line)) rule problem ∧
        fault = lineFault rule.kind problem number := by
  simp only [parseOperation, noting_line_eq]
  constructor
  · intro h
    cases hread : readWords table (Text.words line) with
    | ok instruction => rw [hread] at h; cases h
    | error problem =>
      rw [hread] at h
      obtain ⟨rule, hfirst⟩ := readWords_eq_error_iff.mp hread
      refine ⟨rule, problem, hfirst, ?_⟩
      rw [← hfirst.1.kind_eq]
      exact (Except.error.inj h).symm
  · rintro ⟨rule, problem, hfirst, rfl⟩
    rw [readWords_eq_error_iff.mpr ⟨rule, hfirst⟩, ← hfirst.1.kind_eq]

end

/-- Reading accepts exactly the grammar. With the words of a line as its maximal runs of characters
that are not blank, an operation is read just where the words make a sentence, and it is the one
that the sentence says; otherwise the fault reports the first rule that the words break. -/
theorem parseOperation_accepts_grammar (table : OpcodeTable) (line : String) (number : Nat) :
    ∃ words : List String,
      (∀ ws : List String, Text.Divided line.toList (ws.map String.toList) ↔ ws = words) ∧
      (∀ operation, parseOperation table line number = .ok operation ↔
        ∃ instruction, Sentence table words instruction ∧
          operation = { instruction with raw := line, line := number }) ∧
      ∀ fault, parseOperation table line number = .error fault ↔
        ∃ rule problem, FirstBroken (Breaks table words) rule problem ∧
          fault = lineFault rule.kind problem number :=
  ⟨Text.words line, fun _ => Text.divided_words_iff, fun _ => parseOperation_eq_ok_iff,
    fun _ => parseOperation_eq_error_iff⟩

end RegisterMachine.Source

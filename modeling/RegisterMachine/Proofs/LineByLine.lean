import RegisterMachine.Proofs.Grammar

namespace RegisterMachine

/-- The operation, found so many lines further down. -/
def Operation.lowered (operation : Operation) (count : Nat) : Operation :=
  { operation with line := operation.line + count }

namespace Source

/-- The diagnostic, found so many lines further down. -/
def Diagnostic.lowered (diagnostic : Diagnostic) (count : Nat) : Diagnostic :=
  { diagnostic with line := diagnostic.line + count }

/-- The line that an operation or a diagnostic comes from. -/
def entryLine : Except Diagnostic Operation → Nat
  | .ok operation => operation.line
  | .error diagnostic => diagnostic.line

def lowerEntry (count : Nat) : Except Diagnostic Operation → Except Diagnostic Operation
  | .ok operation => .ok (operation.lowered count)
  | .error diagnostic => .error (diagnostic.lowered count)

/-- What a program and its diagnostics owe to the lines they were read from. Every line that is
not blank without its comment yields one of the two, under its own number, and no other line
yields anything. -/
structure Accounts (table : OpcodeTable) (marker : Char) (lines : List String)
    (program : Program) (diagnostics : List Diagnostic) : Prop where
  operation : ∀ operation, operation ∈ program.operations ↔
    ∃ i line, lines[i]? = some line ∧ stripComment marker line ≠ "" ∧
      parseOperation table (stripComment marker line) (i + 1) = .ok operation
  diagnostic : ∀ diagnostic, diagnostic ∈ diagnostics ↔
    ∃ i line fault, lines[i]? = some line ∧ stripComment marker line ≠ "" ∧
      parseOperation table (stripComment marker line) (i + 1) = .error fault ∧
      diagnostic = { line := i + 1, kind := fault.kind, message := fault.message,
                     source := stripComment marker line }
  operationsInOrder : program.operations.toList.Pairwise fun first second =>
    first.line < second.line
  diagnosticsInOrder : diagnostics.Pairwise fun first second => first.line < second.line
  apart : ∀ operation ∈ program.operations, ∀ diagnostic ∈ diagnostics,
    operation.line ≠ diagnostic.line
  complete : program.size + diagnostics.length =
    lines.countP fun line => stripComment marker line ≠ ""
  unblank : ∀ diagnostic ∈ diagnostics, diagnostic.message ≠ Problem.emptyLine.message

section
variable {table : OpcodeTable} {marker : Char} {line : String} {number start : Nat}
  {operation : Operation} {diagnostic : Diagnostic} {lines : List String}
  {entry : Except Diagnostic Operation} {entries : List (Except Diagnostic Operation)}

theorem mem_operations : operation ∈ operations entries ↔ .ok operation ∈ entries := by
  simp only [operations, List.mem_filterMap]
  constructor
  · rintro ⟨found, hmem, hfound⟩
    cases found with
    | ok other => cases hfound; exact hmem
    | error other => cases hfound
  · intro hmem
    exact ⟨_, hmem, rfl⟩

theorem mem_diagnostics : diagnostic ∈ diagnostics entries ↔ .error diagnostic ∈ entries := by
  simp only [diagnostics, List.mem_filterMap]
  constructor
  · rintro ⟨found, hmem, hfound⟩
    cases found with
    | ok other => cases hfound
    | error other => cases hfound; exact hmem
  · intro hmem
    exact ⟨_, hmem, rfl⟩

/-- Nothing is lost where operations and diagnostics are told apart. -/
theorem length_operations_add_diagnostics (entries : List (Except Diagnostic Operation)) :
    (operations entries).length + (diagnostics entries).length = entries.length := by
  induction entries with
  | nil => rfl
  | cons entry entries ih =>
    cases entry with
    | ok operation =>
      simp only [operations, diagnostics, List.filterMap_cons, List.length_cons] at ih ⊢
      omega
    | error diagnostic =>
      simp only [operations, diagnostics, List.filterMap_cons, List.length_cons] at ih ⊢
      omega

theorem operations_append (entries rest : List (Except Diagnostic Operation)) :
    operations (entries ++ rest) = operations entries ++ operations rest :=
  List.filterMap_append

theorem diagnostics_append (entries rest : List (Except Diagnostic Operation)) :
    diagnostics (entries ++ rest) = diagnostics entries ++ diagnostics rest :=
  List.filterMap_append

/-- Entries that are changed one by one are told apart as before. -/
theorem operations_diagnostics_map
    {change : Except Diagnostic Operation → Except Diagnostic Operation}
    {ofOperation : Operation → Operation} {ofDiagnostic : Diagnostic → Diagnostic}
    (hok : ∀ operation, change (.ok operation) = .ok (ofOperation operation))
    (herror : ∀ diagnostic, change (.error diagnostic) = .error (ofDiagnostic diagnostic)) :
    operations (entries.map change) = (operations entries).map ofOperation ∧
      diagnostics (entries.map change) = (diagnostics entries).map ofDiagnostic := by
  rw [operations, operations, diagnostics, diagnostics, List.filterMap_map, List.filterMap_map,
    List.map_filterMap, List.map_filterMap]
  constructor
  · congr 1
    funext entry
    cases entry with
    | ok operation => simp [hok]
    | error diagnostic => simp [herror]
  · congr 1
    funext entry
    cases entry with
    | ok operation => simp [hok]
    | error diagnostic => simp [herror]

theorem operations_map_lowerEntry (count : Nat) :
    operations (entries.map (lowerEntry count)) =
      (operations entries).map fun operation => operation.lowered count :=
  (operations_diagnostics_map (fun _ => rfl) fun _ => rfl).1

theorem diagnostics_map_lowerEntry (count : Nat) :
    diagnostics (entries.map (lowerEntry count)) =
      (diagnostics entries).map fun diagnostic => diagnostic.lowered count :=
  (operations_diagnostics_map (fun _ => rfl) fun _ => rfl).2

theorem operations_filter (p : Nat → Bool) :
    operations (entries.filter fun entry => p (entryLine entry)) =
      (operations entries).filter fun operation => p operation.line := by
  rw [operations, operations, List.filterMap_filter, List.filter_filterMap]
  congr 1
  funext entry
  cases entry with
  | ok operation => cases h : p operation.line <;> simp [entryLine, h, Option.filter]
  | error diagnostic => exact ite_self none

theorem diagnostics_filter (p : Nat → Bool) :
    diagnostics (entries.filter fun entry => p (entryLine entry)) =
      (diagnostics entries).filter fun diagnostic => p diagnostic.line := by
  rw [diagnostics, diagnostics, List.filterMap_filter, List.filter_filterMap]
  congr 1
  funext entry
  cases entry with
  | ok operation => exact ite_self none
  | error diagnostic => cases h : p diagnostic.line <;> simp [entryLine, h, Option.filter]

/-- What a line can yield. -/
theorem readLine_cases (table : OpcodeTable) (marker : Char) (line : String) (number : Nat) :
    stripComment marker line = "" ∧ readLine table marker line number = none ∨
    (∃ operation, stripComment marker line ≠ "" ∧
      parseOperation table (stripComment marker line) number = .ok operation ∧
      readLine table marker line number = some (.ok operation)) ∨
    ∃ fault, stripComment marker line ≠ "" ∧
      parseOperation table (stripComment marker line) number = .error fault ∧
      readLine table marker line number =
        some (.error { line := number, kind := fault.kind, message := fault.message,
                       source := stripComment marker line }) := by
  by_cases ht : stripComment marker line = ""
  · exact .inl ⟨ht, by simp only [readLine, ht, if_true]⟩
  · cases hparse : parseOperation table (stripComment marker line) number with
    | ok operation =>
      refine .inr (.inl ⟨operation, ht, rfl, ?_⟩)
      simp only [readLine, if_neg ht, hparse]
      rfl
    | error fault =>
      refine .inr (.inr ⟨fault, ht, rfl, ?_⟩)
      simp only [readLine, if_neg ht, hparse]
      rfl

theorem readLine_eq_ok_iff : readLine table marker line number = some (.ok operation) ↔
    stripComment marker line ≠ "" ∧
      parseOperation table (stripComment marker line) number = .ok operation := by
  rcases readLine_cases table marker line number with
    ⟨ht, hread⟩ | ⟨found, ht, hparse, hread⟩ | ⟨fault, ht, hparse, hread⟩
  · simp [hread, ht]
  · simp [hread, ht, hparse]
  · simp [hread, hparse]

theorem readLine_eq_error_iff : readLine table marker line number = some (.error diagnostic) ↔
    ∃ fault, stripComment marker line ≠ "" ∧
      parseOperation table (stripComment marker line) number = .error fault ∧
      diagnostic = { line := number, kind := fault.kind, message := fault.message,
                     source := stripComment marker line } := by
  rcases readLine_cases table marker line number with
    ⟨ht, hread⟩ | ⟨found, ht, hparse, hread⟩ | ⟨fault, ht, hparse, hread⟩
  · simp [hread, ht]
  · simp [hread, hparse]
  · simp [hread, ht, hparse, eq_comm]

theorem isSome_readLine :
    (readLine table marker line number).isSome = decide (stripComment marker line ≠ "") := by
  rcases readLine_cases table marker line number with
    ⟨ht, hread⟩ | ⟨found, ht, hparse, hread⟩ | ⟨fault, ht, hparse, hread⟩
  · simp [hread, ht]
  · simp [hread, ht]
  · simp [hread, ht]

theorem entryLine_of_readLine (h : readLine table marker line number = some entry) :
    entryLine entry = number := by
  cases entry with
  | ok operation =>
    obtain ⟨instruction, _, rfl⟩ := parseOperation_eq_ok_iff.mp (readLine_eq_ok_iff.mp h).2
    rfl
  | error diagnostic =>
    obtain ⟨fault, _, _, rfl⟩ := readLine_eq_error_iff.mp h
    rfl

/-- What a line yields further down differs in the number alone. -/
theorem readLine_add (count : Nat) :
    readLine table marker line (number + count) =
      (readLine table marker line number).map (lowerEntry count) := by
  simp only [readLine, parseOperation]
  split
  · rfl
  · cases readWords table (Text.words (stripComment marker line)) <;> rfl

theorem readLines_cons :
    readLines table marker (line :: lines) start =
      (readLine table marker line start).toList ++ readLines table marker lines (start + 1) := by
  simp only [readLines, List.zipIdx_cons, List.filterMap_cons]
  cases readLine table marker line start <;> rfl

theorem readLines_append {xs ys : List String} :
    readLines table marker (xs ++ ys) start =
      readLines table marker xs start ++ readLines table marker ys (start + xs.length) := by
  rw [readLines, List.zipIdx_append, List.filterMap_append]
  rfl

theorem readLines_add (count : Nat) :
    readLines table marker lines (start + count) =
      (readLines table marker lines start).map (lowerEntry count) := by
  induction lines generalizing start with
  | nil => rfl
  | cons line lines ih =>
    have hstart : start + count + 1 = start + 1 + count := by omega
    rw [readLines_cons, readLines_cons, readLine_add, hstart, ih, List.map_append,
      Option.toList_map]

theorem mem_readLines : entry ∈ readLines table marker lines start ↔
    ∃ i line, lines[i]? = some line ∧ readLine table marker line (start + i) = some entry := by
  simp only [readLines, List.mem_filterMap, Prod.exists, List.mk_mem_zipIdx_iff_le_and_getElem?_sub]
  constructor
  · rintro ⟨line, number, ⟨hle, hline⟩, hread⟩
    refine ⟨number - start, line, hline, ?_⟩
    rw [Nat.add_sub_cancel' hle]
    exact hread
  · rintro ⟨i, line, hline, hread⟩
    refine ⟨line, start + i, ⟨Nat.le_add_right start i, ?_⟩, hread⟩
    rw [Nat.add_sub_cancel_left]
    exact hline

theorem le_entryLine (h : entry ∈ readLines table marker lines start) :
    start ≤ entryLine entry := by
  obtain ⟨i, line, _, hread⟩ := mem_readLines.mp h
  rw [entryLine_of_readLine hread]
  omega

/-- Entries come in the order of their lines, at most one from each. -/
theorem pairwise_readLines (table : OpcodeTable) (marker : Char) (lines : List String)
    (start : Nat) :
    (readLines table marker lines start).Pairwise fun first second =>
      entryLine first < entryLine second := by
  induction lines generalizing start with
  | nil => exact .nil
  | cons line lines ih =>
    rw [readLines_cons, List.pairwise_append]
    refine ⟨?_, ih (start + 1), ?_⟩
    · cases readLine table marker line start with
      | none => exact .nil
      | some entry => exact List.pairwise_singleton _ entry
    · intro first hfirst second hsecond
      have hline := entryLine_of_readLine (Option.mem_toList.mp hfirst)
      have hlater := le_entryLine hsecond
      omega

theorem length_readLines :
    (readLines table marker lines start).length =
      lines.countP fun line => stripComment marker line ≠ "" := by
  induction lines generalizing start with
  | nil => rfl
  | cons line lines ih =>
    rw [readLines_cons, List.length_append, ih, List.countP_cons, ← isSome_readLine]
    cases readLine table marker line start <;> simp [Nat.add_comm]

/-- A line that is changed changes what it yields and no more. -/
theorem readLines_set (i : Nat) (line : String) :
    (readLines table marker (lines.set i line) start).filter
        (fun entry => entryLine entry != start + i) =
      (readLines table marker lines start).filter fun entry => entryLine entry != start + i := by
  -- Whatever stands on the line in question, what it yields is filtered out.
  have hown : ∀ line number, ((readLine table marker line number).toList.filter
      fun entry => entryLine entry != number) = [] := by
    intro line number
    cases h : readLine table marker line number with
    | none => rfl
    | some entry => simp [entryLine_of_readLine h]
  induction lines generalizing i start with
  | nil => rfl
  | cons first lines ih =>
    cases i with
    | zero => simp only [List.set_cons_zero, readLines_cons, List.filter_append, hown, Nat.add_zero]
    | succ i =>
      have hstart : start + (i + 1) = start + 1 + i := by omega
      simp only [List.set_cons_succ, readLines_cons, List.filter_append, hstart]
      rw [ih]

/-- A line yields one thing. -/
theorem eq_of_entryLine_eq {other : Except Diagnostic Operation}
    (h : entry ∈ readLines table marker lines start)
    (h' : other ∈ readLines table marker lines start) (hline : entryLine entry = entryLine other) :
    entry = other := by
  obtain ⟨i, line, hi, hread⟩ := mem_readLines.mp h
  obtain ⟨j, line', hj, hread'⟩ := mem_readLines.mp h'
  rw [entryLine_of_readLine hread, entryLine_of_readLine hread'] at hline
  obtain rfl : i = j := by omega
  obtain rfl : line = line' := Option.some.inj (hi.symm.trans hj)
  exact Option.some.inj (hread.symm.trans hread')

/-- What is left of a line without its comment has words, if it has anything. -/
theorem words_stripComment (h : stripComment marker line ≠ "") :
    Text.words (stripComment marker line) ≠ [] := by
  have htrim : Text.trimBlanks (line.toList.takeWhile (· != marker)) ≠ [] := by
    simpa [stripComment] using h
  have hruns := Text.runs_trimBlanks_ne_nil htrim
  simpa [Text.words, stripComment] using hruns

/-- Only a line without words is reported as empty. -/
theorem Breaks.message_ne {words : List String} {rule : Rule} {problem : Problem}
    (h : Breaks table words rule problem) (hw : words ≠ []) :
    problem.message ≠ Problem.emptyLine.message := by
  intro heq
  have hshown := congrArg String.toList heq
  cases h with
  | blank => exact hw rfl
  | lone unknown => dsimp only [Problem.message] at hshown; simp at hshown
  | unnamed unknown labels => exact absurd heq (by decide)
  | unknown placed unknown => dsimp only [Problem.message] at hshown; simp at hshown
  | misfit placed known misfits =>
    cases misfits <;> dsimp only [Problem.message] at hshown <;> simp at hshown

theorem parseProgram_accounts (table : OpcodeTable) (marker : Char) (lines : List String) :
    Accounts table marker lines (parseProgram table marker lines).1
      (parseProgram table marker lines).2 where
  operation operation := by
    simp only [parseProgram, List.mem_toArray, mem_operations, mem_readLines, readLine_eq_ok_iff,
      Nat.add_comm 1]
  diagnostic diagnostic := by
    simp only [parseProgram, mem_diagnostics, mem_readLines, readLine_eq_error_iff, Nat.add_comm 1,
      exists_and_left]
  operationsInOrder := by
    refine List.pairwise_filterMap.mpr ((pairwise_readLines table marker lines 1).imp ?_)
    rintro (_ | first) (_ | second) hlt _ ⟨⟩ _ ⟨⟩
    exact hlt
  diagnosticsInOrder := by
    refine List.pairwise_filterMap.mpr ((pairwise_readLines table marker lines 1).imp ?_)
    rintro (first | _) (second | _) hlt _ ⟨⟩ _ ⟨⟩
    exact hlt
  apart := by
    intro operation hoperation diagnostic hdiagnostic hline
    have hok := mem_operations.mp (List.mem_toArray.mp hoperation)
    have herror := mem_diagnostics.mp hdiagnostic
    cases eq_of_entryLine_eq hok herror hline
  complete := by
    simp only [parseProgram, Program.size, List.size_toArray]
    rw [length_operations_add_diagnostics, length_readLines]
  unblank := by
    intro diagnostic hdiagnostic
    obtain ⟨i, line, _, hread⟩ := mem_readLines.mp (mem_diagnostics.mp hdiagnostic)
    obtain ⟨fault, htext, hparse, rfl⟩ := readLine_eq_error_iff.mp hread
    obtain ⟨rule, problem, hfirst, rfl⟩ := parseOperation_eq_error_iff.mp hparse
    exact hfirst.1.message_ne (words_stripComment htext)

theorem parseProgram_append {xs ys : List String} :
    (parseProgram table marker (xs ++ ys)).1.operations =
        (parseProgram table marker xs).1.operations ++
          (parseProgram table marker ys).1.operations.map (·.lowered xs.length) ∧
      (parseProgram table marker (xs ++ ys)).2 =
        (parseProgram table marker xs).2 ++
          (parseProgram table marker ys).2.map (·.lowered xs.length) := by
  simp only [parseProgram, readLines_append, readLines_add, operations_append, diagnostics_append,
    operations_map_lowerEntry, diagnostics_map_lowerEntry, List.append_toArray, List.map_toArray,
    and_self]

theorem parseProgram_set {i : Nat} :
    ((parseProgram table marker (lines.set i line)).1.operations.filter (·.line != i + 1) =
        (parseProgram table marker lines).1.operations.filter (·.line != i + 1)) ∧
      (parseProgram table marker (lines.set i line)).2.filter (·.line != i + 1) =
        (parseProgram table marker lines).2.filter (·.line != i + 1) := by
  have hsame : (readLines table marker (lines.set i line) 1).filter
      (fun entry => entryLine entry != i + 1) =
      (readLines table marker lines 1).filter fun entry => entryLine entry != i + 1 := by
    rw [Nat.add_comm i 1]
    exact readLines_set i line
  constructor
  · have hops := congrArg operations hsame
    rw [operations_filter (· != i + 1), operations_filter (· != i + 1)] at hops
    simp only [parseProgram, List.filter_toArray, hops]
  · have hdiags := congrArg diagnostics hsame
    rw [diagnostics_filter (· != i + 1), diagnostics_filter (· != i + 1)] at hdiags
    exact hdiags

end

/-- Loading loses nothing and invents nothing, and goes line by line. The entries of a program and
its diagnostics are what its lines yield; more lines add their own entries behind the others, under
later numbers; and a line that is changed leaves the entries of all other lines as they were. -/
theorem parseProgram_goes_line_by_line (table : OpcodeTable) (marker : Char) :
    (∀ lines, Accounts table marker lines (parseProgram table marker lines).1
      (parseProgram table marker lines).2) ∧
    (∀ xs ys, (parseProgram table marker (xs ++ ys)).1.operations =
        (parseProgram table marker xs).1.operations ++
          (parseProgram table marker ys).1.operations.map (·.lowered xs.length) ∧
      (parseProgram table marker (xs ++ ys)).2 =
        (parseProgram table marker xs).2 ++
          (parseProgram table marker ys).2.map (·.lowered xs.length)) ∧
    ∀ lines i line,
      (parseProgram table marker (lines.set i line)).1.operations.filter (·.line != i + 1) =
        (parseProgram table marker lines).1.operations.filter (·.line != i + 1) ∧
      (parseProgram table marker (lines.set i line)).2.filter (·.line != i + 1) =
        (parseProgram table marker lines).2.filter (·.line != i + 1) :=
  ⟨parseProgram_accounts table marker, fun _ _ => parseProgram_append,
    fun _ _ _ => parseProgram_set⟩

end Source

end RegisterMachine

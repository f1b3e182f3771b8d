import RegisterMachine.Command.Report
import RegisterMachine.Proofs.CanonicalText
import RegisterMachine.Proofs.FailingSteps
import RegisterMachine.Proofs.Traces

namespace RegisterMachine

namespace Text

/-- A text that stands on one line. -/
def Unbroken (s : String) : Prop :=
  '\n' ∉ s.toList

instance (s : String) : Decidable (Unbroken s) :=
  inferInstanceAs (Decidable ('\n' ∉ s.toList))

theorem Unbroken.append {s t : String} (hs : Unbroken s) (ht : Unbroken t) :
    Unbroken (s ++ t) := by
  simpa [Unbroken] using ⟨hs, ht⟩

theorem IsWord.unbroken {s : String} (h : IsWord s) : Unbroken s := by
  intro hbreak
  exact absurd (h.2 '\n' hbreak) (by decide)

theorem Unbroken.flushRight {s : String} (h : Unbroken s) (width : Nat) :
    Unbroken (flushRight width s) := by
  simp only [Unbroken, Text.flushRight, String.toList_ofList, List.leftpad, List.mem_append,
    List.mem_replicate, not_or]
  exact ⟨fun hpad => absurd hpad.2 (by decide), h⟩

theorem Unbroken.flushLeft {s : String} (h : Unbroken s) (width : Nat) :
    Unbroken (flushLeft width s) := by
  simp only [Unbroken, Text.flushLeft, String.toList_ofList, List.rightpad, List.mem_append,
    List.mem_replicate, not_or]
  exact ⟨h, fun hpad => absurd hpad.2 (by decide)⟩

theorem sublist_trimBlanks (cs : List Char) : (trimBlanks cs).Sublist cs := by
  have hback : (dropTrailingBlanks (cs.dropWhile isBlank)).Sublist (cs.dropWhile isBlank) :=
    List.reverse_sublist.mp (by
      rw [dropTrailingBlanks, List.reverse_reverse]
      exact List.dropWhile_sublist _)
  exact hback.trans (List.dropWhile_sublist _)

end Text

theorem Text.Unbroken.stripComment {line : String} (h : Unbroken line) (marker : Char) :
    Unbroken (Source.stripComment marker line) := by
  intro hbreak
  rw [Source.stripComment, String.toList_ofList] at hbreak
  have hmem := (sublist_trimBlanks _).subset hbreak
  exact h ((List.takeWhile_sublist _).subset hmem)

/-- Each operation of a program stands on one line. -/
def Program.Unbroken (program : Program) : Prop :=
  ∀ operation ∈ program.operations, Text.Unbroken operation.raw

namespace Session
variable {s t : Session}

end Session

/-- A row shows one line, and one more below it if the step emitted one. -/
structure TraceRow.Unbroken (row : TraceRow) : Prop where
  raw : Text.Unbroken row.raw
  line : ∀ line, row.line = some line → Text.Unbroken line

namespace Session
variable {s t : Session} {taken rows : List TraceRow} {fuel : Nat} {outcome : Outcome}

end Session

namespace Command

/-- Lines as they are printed, each with a break behind it. -/
def printed (lines : List String) : String :=
  String.join (lines.map (· ++ "\n"))

/-- The register dump: the accumulator, the instruction pointer, and each register that was
written, in the order of their addresses. -/
def dump (memory : Memory) : List String :=
  ("ACC = " ++ memory.accumulator.toInt.repr) ::
    ("IP  = " ++ memory.instructionPointer.toInt.repr) ::
      memory.cells.map fun (address, value) =>
        "R" ++ String.ofList (address.toNat.repr.toList.rightpad 3 ' ') ++ "= " ++
          value.toInt.repr

/-- Whether a line of a trace shows a line that a step emitted. -/
def isMarked (line : String) : Bool :=
  "     > ".toList.isPrefixOf line.toList

/-- The marked lines of a trace are the given ones, in their order. No line is broken, so that
those that are printed are those of the list. -/
structure Marks (trace lines : List String) : Prop where
  unbroken : ∀ line ∈ trace, '\n' ∉ line.toList
  marked : trace.filter isMarked = lines.map ("     > " ++ ·)

theorem Marks.nil : Marks [] [] where
  unbroken _ h := absurd h List.not_mem_nil
  marked := rfl

theorem Marks.append {front back left right : List String} (hf : Marks front left)
    (hb : Marks back right) : Marks (front ++ back) (left ++ right) where
  unbroken line h := (List.mem_append.mp h).elim (hf.unbroken line) (hb.unbroken line)
  marked := by rw [List.filter_append, hf.marked, hb.marked, List.map_append]

/-- A line of the three columns. -/
def columns (pointer operation accumulator : String) : String :=
  Text.flushRight 4 pointer ++ " | " ++ Text.flushLeft 24 operation ++ " | " ++ accumulator

/-- The pointer is set flush right in four columns, so the fifth blank of a mark is missing. -/
theorem isMarked_columns {pointer : String} (h : Text.IsWord pointer)
    (operation accumulator : String) :
    isMarked (columns pointer operation accumulator) = false := by
  obtain ⟨c, cs, hcs⟩ : ∃ c cs, pointer.toList = c :: cs :=
    List.exists_cons_of_ne_nil fun hnil => h.1 (String.toList_eq_nil_iff.mp hnil)
  have hc : c ≠ ' ' := by
    rintro rfl
    exact absurd (h.2 ' ' (hcs ▸ List.mem_cons_self)) (by decide)
  obtain ⟨gap, hgap, hpad⟩ : ∃ gap, gap < 4 ∧ (Text.flushRight 4 pointer).toList =
      List.replicate gap ' ' ++ (c :: cs) := by
    refine ⟨4 - (c :: cs).length, by simp only [List.length_cons]; omega, ?_⟩
    rw [Text.flushRight, String.toList_ofList, List.leftpad, hcs]
  simp only [isMarked, columns, String.toList_append, hpad, List.append_assoc]
  have hcases : gap = 0 ∨ gap = 1 ∨ gap = 2 ∨ gap = 3 := by omega
  rcases hcases with rfl | rfl | rfl | rfl <;> simp [List.replicate, List.isPrefixOf, hc.symm]

theorem Marks.columns {pointer operation accumulator : String} (hp : Text.IsWord pointer)
    (ho : Text.Unbroken operation) (ha : Text.IsWord accumulator) :
    Marks [columns pointer operation accumulator] [] where
  unbroken line h := by
    rw [List.mem_singleton.mp h]
    have hbar : Text.Unbroken " | " := by decide
    exact (((hp.unbroken.flushRight 4).append hbar).append (ho.flushLeft 24)).append hbar
      |>.append ha.unbroken
  marked := by rw [List.filter_cons, isMarked_columns hp, List.filter_nil]; rfl

theorem Marks.emitted {line : String} (h : Text.Unbroken line) :
    Marks ["     > " ++ line] [line] where
  unbroken other ho := by
    rw [List.mem_singleton.mp ho]
    exact Text.Unbroken.append (by decide) h
  marked := by
    have hmark : isMarked ("     > " ++ line) = true := by
      rw [isMarked, String.toList_append, List.isPrefixOf_iff_prefix]
      exact List.prefix_append _ _
    rw [List.filter_cons, hmark, List.filter_nil]
    rfl

/-- The lines that a row takes. -/
def rowLines (row : TraceRow) : List String :=
  columns (Text.decimal row.pointer.toInt) row.raw (Text.decimal row.accumulator.toInt) ::
    row.line.toList.map ("     > " ++ ·)

theorem Marks.row {row : TraceRow} (h : row.Unbroken) : Marks (rowLines row) row.line.toList := by
  have hcolumns := Marks.columns (Text.isWord_decimal row.pointer.toInt) h.raw
    (Text.isWord_decimal row.accumulator.toInt)
  cases hline : row.line with
  | none =>
    rw [rowLines, hline]
    exact hcolumns
  | some line =>
    rw [rowLines, hline]
    exact hcolumns.append (Marks.emitted (h.line line hline))

end Command

end RegisterMachine

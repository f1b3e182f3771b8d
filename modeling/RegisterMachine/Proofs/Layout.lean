import Mathlib.Data.List.Forall2
import Mathlib.Data.List.TakeWhile
import RegisterMachine.Proofs.LineByLine
import RegisterMachine.Ram.Table

namespace RegisterMachine

/-- The operation, whatever text it was read from. -/
def Operation.unsourced (operation : Operation) : Operation :=
  { operation with raw := "" }

namespace Source

/-- The diagnostic, whatever text it is about. -/
def Diagnostic.unsourced (diagnostic : Diagnostic) : Diagnostic :=
  { diagnostic with source := "" }

def unsourceEntry : Except Diagnostic Operation → Except Diagnostic Operation
  | .ok operation => .ok operation.unsourced
  | .error diagnostic => .error diagnostic.unsourced

/-- The part of a line before its first comment marker, which is all of a line without one. -/
structure CutAt (marker : Char) (line part : String) : Prop where
  unmarked : marker ∉ part.toList
  cut : line = part ∨ ∃ comment, line = part ++ String.singleton marker ++ comment

/-- Before their comments, two lines have the same words. -/
def AlikeInWords (marker : Char) (line other : String) : Prop :=
  ∃ part part' words, CutAt marker line part ∧ CutAt marker other part' ∧
    Text.Divided part.toList words ∧ Text.Divided part'.toList words

/-- Before their comments, two lines are the same text but for blanks at its ends. -/
def AlikeInText (marker : Char) (line other : String) : Prop :=
  ∃ part part' text, CutAt marker line part ∧ CutAt marker other part' ∧
    Text.Trims part text ∧ Text.Trims part' text

section
variable {marker : Char} {line other part : String}

theorem CutAt.takeWhile_eq (h : CutAt marker line part) :
    line.toList.takeWhile (· != marker) = part.toList := by
  have hall : ∀ c ∈ part.toList, (c != marker) = true := by
    intro c hc
    exact bne_iff_ne.mpr fun heq => h.unmarked (heq ▸ hc)
  rcases h.cut with rfl | ⟨comment, rfl⟩
  · exact List.takeWhile_eq_self_iff.mpr hall
  · simp [List.takeWhile_append_of_pos hall]

theorem exists_cutAt (marker : Char) (line : String) : ∃ part, CutAt marker line part := by
  have hsplit := List.takeWhile_append_dropWhile (p := (· != marker)) (l := line.toList)
  refine ⟨String.ofList (line.toList.takeWhile (· != marker)), ?_, ?_⟩
  · rw [String.toList_ofList]
    intro hmem
    simpa using List.mem_takeWhile_imp hmem
  · cases hrest : line.toList.dropWhile (· != marker) with
    | nil =>
      rw [hrest, List.append_nil] at hsplit
      exact .inl (String.toList_inj.mp (by rw [String.toList_ofList, hsplit]))
    | cons c rest =>
      have hc := List.head?_dropWhile_not (· != marker) line.toList
      rw [hrest] at hc
      obtain rfl : c = marker := by simpa using hc
      rw [hrest] at hsplit
      refine .inr ⟨String.ofList rest, String.toList_inj.mp ?_⟩
      simpa using hsplit.symm

/-- A comment on a line does not move its cut. -/
theorem CutAt.append_comment (h : CutAt marker line part) (comment : String) :
    CutAt marker (line ++ String.singleton marker ++ comment) part := by
  refine ⟨h.unmarked, .inr ?_⟩
  rcases h.cut with rfl | ⟨first, rfl⟩
  · exact ⟨comment, rfl⟩
  · exact ⟨first ++ String.singleton marker ++ comment, String.toList_inj.mp (by simp)⟩

theorem CutAt.stripComment_eq (h : CutAt marker line part) :
    stripComment marker line = Text.trim part := by
  rw [stripComment, h.takeWhile_eq, Text.trim]

theorem stripComment_append (marker : Char) (line comment : String) :
    stripComment marker (line ++ String.singleton marker ++ comment) =
      stripComment marker line := by
  obtain ⟨part, hpart⟩ := exists_cutAt marker line
  rw [hpart.stripComment_eq, (hpart.append_comment comment).stripComment_eq]

theorem trims_stripComment (marker : Char) (line : String) :
    ∃ part, CutAt marker line part ∧ Text.Trims part (stripComment marker line) := by
  obtain ⟨part, hpart⟩ := exists_cutAt marker line
  exact ⟨part, hpart, Text.trims_iff.mpr hpart.stripComment_eq⟩

/-- What is left of a line has no comment. -/
theorem cutAt_stripComment (marker : Char) (line : String) :
    CutAt marker (stripComment marker line) (stripComment marker line) := by
  obtain ⟨part, hpart, ⟨left, right, hsplit, _, _⟩, _, _⟩ := trims_stripComment marker line
  refine ⟨fun hmem => hpart.unmarked ?_, .inl rfl⟩
  rw [hsplit]
  simp [hmem]

theorem stripComment_stripComment (marker : Char) (line : String) :
    stripComment marker (stripComment marker line) = stripComment marker line := by
  obtain ⟨part, hpart⟩ := exists_cutAt marker line
  rw [(cutAt_stripComment marker line).stripComment_eq, hpart.stripComment_eq, Text.trim_trim]

theorem AlikeInWords.words_eq (h : AlikeInWords marker line other) :
    Text.words (stripComment marker line) = Text.words (stripComment marker other) := by
  obtain ⟨part, part', words, hpart, hpart', hwords, hwords'⟩ := h
  rw [hpart.stripComment_eq, hpart'.stripComment_eq, Text.words_trim, Text.words_trim, Text.words,
    Text.words, hwords.runs_eq, hwords'.runs_eq]

theorem AlikeInText.stripComment_eq (h : AlikeInText marker line other) :
    stripComment marker line = stripComment marker other := by
  obtain ⟨part, part', text, hpart, hpart', htext, htext'⟩ := h
  rw [hpart.stripComment_eq, hpart'.stripComment_eq, ← Text.trims_iff.mp htext,
    ← Text.trims_iff.mp htext']

end

/-- What the words of a line yield, whatever text they were read from. -/
def wordsEntry (table : OpcodeTable) (number : Nat) :
    List String → Option (Except Diagnostic Operation)
  | [] => none
  | words => some <|
    match readWords table words with
    | .ok instruction => .ok { instruction with raw := "", line := number }
    | .error problem =>
      .error { line := number, kind := problem.kind, message := problem.message, source := "" }

section
variable {table : OpcodeTable} {marker : Char} {lines others : List String} {start : Nat}

/-- Of a line only its words count, but for the text that is kept with what they yield. -/
theorem readLine_unsourced (table : OpcodeTable) (marker : Char) (line : String) (number : Nat) :
    (readLine table marker line number).map unsourceEntry =
      wordsEntry table number (Text.words (stripComment marker line)) := by
  by_cases htext : stripComment marker line = ""
  · rw [htext]
    simp only [readLine, htext, if_true]
    rfl
  · obtain ⟨first, rest, hwords⟩ := List.exists_cons_of_ne_nil (words_stripComment htext)
    simp only [readLine, if_neg htext, parseOperation, hwords, wordsEntry, noting_line_eq]
    cases readWords table (first :: rest) with
    | ok instruction => rfl
    | error problem => rfl

/-- Lines that yield alike one by one yield alike together. -/
theorem readLines_map_congr
    {view : Except Diagnostic Operation → Except Diagnostic Operation}
    (h : List.Forall₂ (fun line other => ∀ number,
      (readLine table marker line number).map view =
        (readLine table marker other number).map view) lines others) :
    (readLines table marker lines start).map view =
      (readLines table marker others start).map view := by
  induction h generalizing start with
  | nil => rfl
  | cons hline _ ih =>
    rw [readLines_cons, readLines_cons, List.map_append, List.map_append, ← Option.toList_map,
      ← Option.toList_map, hline start, ih]

theorem parseProgram_unsourced (h : List.Forall₂ (AlikeInWords marker) lines others) :
    (parseProgram table marker lines).1.operations.map Operation.unsourced =
        (parseProgram table marker others).1.operations.map Operation.unsourced ∧
      (parseProgram table marker lines).2.map Diagnostic.unsourced =
        (parseProgram table marker others).2.map Diagnostic.unsourced := by
  have hentries : (readLines table marker lines 1).map unsourceEntry =
      (readLines table marker others 1).map unsourceEntry := by
    refine readLines_map_congr (h.imp ?_)
    intro line other halike number
    rw [readLine_unsourced, readLine_unsourced, halike.words_eq]
  have hview : ∀ entries : List (Except Diagnostic Operation),
      operations (entries.map unsourceEntry) = (operations entries).map Operation.unsourced ∧
        diagnostics (entries.map unsourceEntry) =
          (diagnostics entries).map Diagnostic.unsourced :=
    fun _ => operations_diagnostics_map (fun _ => rfl) fun _ => rfl
  simp only [parseProgram, List.map_toArray, ← (hview _).1, ← (hview _).2, hentries, and_self]

theorem parseProgram_alike (h : List.Forall₂ (AlikeInText marker) lines others) :
    parseProgram table marker lines = parseProgram table marker others := by
  have hentries : (readLines table marker lines 1).map id =
      (readLines table marker others 1).map id := by
    refine readLines_map_congr (h.imp ?_)
    intro line other halike number
    rw [readLine, readLine, halike.stripComment_eq]
  rw [List.map_id, List.map_id] at hentries
  rw [parseProgram, parseProgram, hentries]

end

/-- Layout and comments do not matter. A comment behind a line changes nothing of what is left of
it, which has no comment and no blank at its ends; lines with the same words are read alike but
for the texts that operations and diagnostics quote; and lines that differ in blanks at their ends
alone are read as the same program. -/
theorem layout_and_comments_do_not_matter (marker : Char) :
    (∀ line comment, stripComment marker (line ++ String.singleton marker ++ comment) =
      stripComment marker line) ∧
    (∀ line, stripComment marker (stripComment marker line) = stripComment marker line) ∧
    (∀ line, marker ∉ (stripComment marker line).toList ∧
      (∀ c ∈ (stripComment marker line).toList.head?, Text.isBlank c = false) ∧
      ∀ c ∈ (stripComment marker line).toList.getLast?, Text.isBlank c = false) ∧
    (∀ table lines others, List.Forall₂ (AlikeInWords marker) lines others →
      (parseProgram table marker lines).1.operations.map Operation.unsourced =
        (parseProgram table marker others).1.operations.map Operation.unsourced ∧
      (parseProgram table marker lines).2.map Diagnostic.unsourced =
        (parseProgram table marker others).2.map Diagnostic.unsourced) ∧
    ∀ table lines others, List.Forall₂ (AlikeInText marker) lines others →
      parseProgram table marker lines = parseProgram table marker others := by
  refine ⟨stripComment_append marker, stripComment_stripComment marker, ?_,
    fun _ _ _ => parseProgram_unsourced, fun _ _ _ => parseProgram_alike⟩
  intro line
  obtain ⟨part, _, htrims⟩ := trims_stripComment marker line
  exact ⟨(cutAt_stripComment marker line).unmarked, htrims.first, htrims.last⟩

/-- Three lines, of which the second cannot be read. -/
def tidy : List String := ["go: LOAD =1", "FOO bar", ""]

/-- The same words with other blanks between them, one of them not of ASCII, and with comments. -/
def spaced : List String := ["go:\tLOAD   =1 ; one; two", "FOO\u3000bar", " ;"]

/-- The same texts, set in and with comments. -/
def indented : List String := ["  go: LOAD =1", "FOO bar ; no such opcode", ";"]

theorem layout_and_comments_do_not_matter_tidy :
    List.Forall₂ (AlikeInWords ';') spaced tidy ∧
      (parseProgram Ram.table ';' spaced).1.operations.map Operation.unsourced =
        (parseProgram Ram.table ';' tidy).1.operations.map Operation.unsourced ∧
      (parseProgram Ram.table ';' spaced).2.map Diagnostic.unsourced =
        [{ line := 2, kind := .unknownOpcode, message := "unknown operation: bar", source := "" }] ∧
      List.Forall₂ (AlikeInText ';') indented tidy ∧
      parseProgram Ram.table ';' indented = parseProgram Ram.table ';' tidy := by
  have hself : ∀ line ∈ tidy, CutAt ';' line line := by
    intro line hline
    refine ⟨?_, .inl rfl⟩
    revert line
    decide
  have hwords : List.Forall₂ (AlikeInWords ';') spaced tidy := by
    refine .cons ⟨"go:\tLOAD   =1 ", _, _, ⟨by decide, .inr ⟨" one; two", by decide⟩⟩,
      hself _ (by decide), Text.divided_iff.mpr rfl, Text.divided_iff.mpr (by decide)⟩ ?_
    refine .cons ⟨"FOO\u3000bar", _, _, ⟨by decide, .inl rfl⟩,
      hself _ (by decide), Text.divided_iff.mpr rfl, Text.divided_iff.mpr (by decide)⟩ ?_
    exact .cons ⟨" ", _, _, ⟨by decide, .inr ⟨"", by decide⟩⟩,
      hself _ (by decide), Text.divided_iff.mpr rfl, Text.divided_iff.mpr (by decide)⟩ .nil
  have htexts : List.Forall₂ (AlikeInText ';') indented tidy := by
    refine .cons ⟨"  go: LOAD =1", _, _, ⟨by decide, .inl rfl⟩, hself _ (by decide),
      Text.trims_iff.mpr rfl, Text.trims_iff.mpr (by decide)⟩ ?_
    refine .cons ⟨"FOO bar ", _, _, ⟨by decide, .inr ⟨" no such opcode", by decide⟩⟩,
      hself _ (by decide), Text.trims_iff.mpr rfl, Text.trims_iff.mpr (by decide)⟩ ?_
    exact .cons ⟨"", _, _, ⟨by decide, .inr ⟨"", by decide⟩⟩, hself _ (by decide),
      Text.trims_iff.mpr rfl, Text.trims_iff.mpr (by decide)⟩ .nil
  obtain ⟨_, _, _, hsame, hequal⟩ := layout_and_comments_do_not_matter ';'
  obtain ⟨hoperations, hdiagnostics⟩ := hsame Ram.table spaced tidy hwords
  refine ⟨hwords, hoperations, ?_, htexts, hequal Ram.table indented tidy htexts⟩
  rw [hdiagnostics]
  decide +kernel

end Source

end RegisterMachine

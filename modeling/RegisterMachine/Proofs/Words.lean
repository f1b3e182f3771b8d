import RegisterMachine.Text.Basic

namespace RegisterMachine.Text

/-- A text that stands as one word: it is not empty and holds no blank. -/
def IsWord (s : String) : Prop :=
  s ≠ "" ∧ ∀ c ∈ s.toList, isBlank c = false

/-- How many characters are not blank. -/
def ink (cs : List Char) : Nat :=
  cs.countP fun c => !isBlank c

/-- The maximal runs of characters that are not blank: blanks stand before and between them, and
behind the last. -/
inductive Divided : List Char → List (List Char) → Prop
  | blank {gap : List Char} (blank : ∀ c ∈ gap, isBlank c = true) : Divided gap []
  | word {gap run rest : List Char} {runs : List (List Char)}
      (blank : ∀ c ∈ gap, isBlank c = true) (nonempty : run ≠ [])
      (solid : ∀ c ∈ run, isBlank c = false) (ended : ∀ c ∈ rest.head?, isBlank c = true)
      (divided : Divided rest runs) : Divided (gap ++ run ++ rest) (run :: runs)

section
variable {cs rest run gap left right : List Char}

theorem runs_blank_append (h : ∀ c ∈ gap, isBlank c = true) (cs : List Char) :
    runs (gap ++ cs) = runs cs := by
  induction gap with
  | nil => rfl
  | cons c gap ih =>
    rw [List.cons_append, runs_cons_blank (h c (by simp)), ih fun d hd => h d (by simp [hd])]

/-- A run that a blank or the end follows is a word of its own. -/
theorem runs_append (hn : run ≠ []) (hs : ∀ c ∈ run, isBlank c = false)
    (he : ∀ c ∈ rest.head?, isBlank c = true) : runs (run ++ rest) = run :: runs rest := by
  have hrun : run.isEmpty = false := by simpa using hn
  cases rest with
  | nil => simp [runs, List.splitOnP_eq_singleton hs, hrun]
  | cons c rest =>
    have hc : isBlank c = true := he c rfl
    rw [runs_cons_blank hc]
    simp [runs, List.splitOnP_append_cons_of_forall_mem hs c hc, hrun]

theorem Divided.runs_eq {words : List (List Char)} (h : Divided cs words) : runs cs = words := by
  induction h with
  | blank blank =>
    have hnone := runs_blank_append blank []
    rwa [List.append_nil, runs_nil] at hnone
  | word blank nonempty solid ended _ ih =>
    rw [List.append_assoc, runs_blank_append blank, runs_append nonempty solid ended, ih]

/-- A first word with no blank before it. -/
theorem Divided.start {words : List (List Char)} (nonempty : run ≠ [])
    (solid : ∀ c ∈ run, isBlank c = false) (ended : ∀ c ∈ rest.head?, isBlank c = true)
    (divided : Divided rest words) : Divided (run ++ rest) (run :: words) :=
  @Divided.word [] run rest words (by simp) nonempty solid ended divided

theorem exists_divided (cs : List Char) : ∃ words, Divided cs words := by
  induction cs with
  | nil => exact ⟨[], .blank (by simp)⟩
  | cons c cs ih =>
    obtain ⟨words, h⟩ := ih
    cases hc : isBlank c with
    | true =>
      cases h with
      | blank blank => exact ⟨[], .blank (by simpa [hc] using blank)⟩
      | @word gap run rest _ blank nonempty solid ended divided =>
        have hgap : ∀ d ∈ c :: gap, isBlank d = true := by simpa [hc] using blank
        exact ⟨_, .word hgap nonempty solid ended divided⟩
    | false =>
      have hstart : (∀ d ∈ cs.head?, isBlank d = true) → ∃ words, Divided (c :: cs) words := by
        intro ended
        have hsolid : ∀ d ∈ [c], isBlank d = false := by simpa using hc
        exact ⟨[c] :: words, .start (List.cons_ne_nil c []) hsolid ended h⟩
      cases h with
      | blank blank => exact hstart fun d hd => blank d (List.mem_of_mem_head? hd)
      | @word gap run rest _ blank nonempty solid ended divided =>
        cases gap with
        | nil =>
          -- The character lengthens the run that follows it.
          have hrun : ∀ d ∈ c :: run, isBlank d = false := by simpa [hc] using solid
          exact ⟨_, .start (List.cons_ne_nil c run) hrun ended divided⟩
        | cons g gap => exact hstart (by simpa using blank g (by simp))

/-- The words are the one way to divide characters into runs. -/
theorem divided_iff {words : List (List Char)} : Divided cs words ↔ runs cs = words := by
  constructor
  · exact Divided.runs_eq
  · rintro rfl
    obtain ⟨words, h⟩ := exists_divided cs
    rwa [h.runs_eq]

/-- A run is not empty and holds no blank. -/
theorem Divided.solid {words : List (List Char)} (h : Divided cs words) (hr : run ∈ words) :
    run ≠ [] ∧ ∀ c ∈ run, isBlank c = false := by
  induction h with
  | blank blank => cases hr
  | word blank nonempty solid ended divided ih =>
    rcases List.mem_cons.mp hr with rfl | hr
    · exact ⟨nonempty, solid⟩
    · exact ih hr

theorem ink_append (cs rest : List Char) : ink (cs ++ rest) = ink cs + ink rest :=
  List.countP_append

/-- All that is not blank stands in the runs. -/
theorem Divided.length_flatten {words : List (List Char)} (h : Divided cs words) :
    words.flatten.length = ink cs := by
  induction h with
  | blank blank =>
    symm
    simpa [ink, List.countP_eq_zero] using blank
  | @word gap run rest _ blank nonempty solid ended _ ih =>
    have hgap : ink gap = 0 := by simpa [ink, List.countP_eq_zero] using blank
    have hrun : ink run = run.length := by simpa [ink, List.countP_eq_length] using solid
    rw [List.flatten_cons, List.length_append, ih, ink_append, ink_append, hgap, hrun,
      Nat.zero_add]

/-- Blanks behind a text divide nothing. -/
theorem Divided.append_blank {words : List (List Char)} (h : Divided cs words)
    (hg : ∀ c ∈ gap, isBlank c = true) : Divided (cs ++ gap) words := by
  induction h with
  | blank blank =>
    refine .blank ?_
    intro c hc
    rcases List.mem_append.mp hc with hc | hc
    · exact blank c hc
    · exact hg c hc
  | @word front run rest _ blank nonempty solid ended _ ih =>
    rw [List.append_assoc]
    refine .word blank nonempty solid ?_ ih
    intro c hc
    cases rest with
    | nil => exact hg c (List.mem_of_mem_head? hc)
    | cons d rest => exact ended c hc

theorem runs_append_blank (h : ∀ c ∈ gap, isBlank c = true) : runs (cs ++ gap) = runs cs :=
  ((divided_iff.mpr rfl).append_blank h).runs_eq

theorem isBlank_of_runs_eq_nil (h : runs cs = []) : ∀ c ∈ cs, isBlank c = true := by
  cases divided_iff.mpr h with
  | blank blank => exact blank

/-- Trimming leaves a character that is not blank, if it leaves any. -/
theorem runs_trimBlanks_ne_nil (h : trimBlanks cs ≠ []) : runs (trimBlanks cs) ≠ [] := by
  intro hr
  have hblank := isBlank_of_runs_eq_nil hr
  have hne : (cs.dropWhile isBlank).reverse.dropWhile isBlank ≠ [] := by
    simpa [trimBlanks, dropTrailingBlanks] using h
  have hfirst := List.head_dropWhile_not isBlank hne
  have hmem : ((cs.dropWhile isBlank).reverse.dropWhile isBlank).head hne ∈ trimBlanks cs := by
    simp [trimBlanks, dropTrailingBlanks]
  rw [hblank _ hmem] at hfirst
  cases hfirst

/-- A text without blanks at its ends is left alone. -/
theorem trimBlanks_eq_self (hfirst : ∀ c ∈ cs.head?, isBlank c = false)
    (hlast : ∀ c ∈ cs.getLast?, isBlank c = false) : trimBlanks cs = cs := by
  have hfront : ∀ ds : List Char, (∀ c ∈ ds.head?, isBlank c = false) →
      ds.dropWhile isBlank = ds := by
    intro ds h
    cases ds with
    | nil => rfl
    | cons d ds => simp [h d rfl]
  rw [trimBlanks, hfront cs hfirst, dropTrailingBlanks, hfront cs.reverse (by simpa using hlast),
    List.reverse_reverse]

/-- Blanks around a text do not count. -/
theorem trimBlanks_surround (hleft : ∀ c ∈ left, isBlank c = true)
    (hright : ∀ c ∈ right, isBlank c = true) :
    trimBlanks (left ++ cs ++ right) = trimBlanks cs := by
  rw [trimBlanks, List.append_assoc, List.dropWhile_append_of_pos hleft, List.dropWhile_append,
    trimBlanks]
  split
  · rename_i hempty
    have hnone : right.dropWhile isBlank = [] := by
      simpa using @List.dropWhile_append_of_pos _ _ right [] hright
    rw [hnone, List.isEmpty_iff.mp hempty]
  · rw [dropTrailingBlanks, List.reverse_append,
      List.dropWhile_append_of_pos (by simpa using hright), dropTrailingBlanks]

theorem head?_dropWhile_isBlank (cs : List Char) :
    ∀ c ∈ (cs.dropWhile isBlank).head?, isBlank c = false := by
  intro c hc
  have hnot := List.head?_dropWhile_not isBlank cs
  rwa [Option.mem_def.mp hc] at hnot

/-- Blanks at the end are set apart, and the rest does not end with one. -/
theorem exists_dropTrailingBlanks (cs : List Char) :
    ∃ right, cs = dropTrailingBlanks cs ++ right ∧ (∀ c ∈ right, isBlank c = true) ∧
      ∀ c ∈ (dropTrailingBlanks cs).getLast?, isBlank c = false := by
  refine ⟨(cs.reverse.takeWhile isBlank).reverse, ?_, ?_, ?_⟩
  · rw [dropTrailingBlanks, ← List.reverse_append, List.takeWhile_append_dropWhile,
      List.reverse_reverse]
  · intro c hc
    exact List.all_eq_true.mp List.all_takeWhile c (List.mem_reverse.mp hc)
  · rw [dropTrailingBlanks, List.getLast?_reverse]
    exact head?_dropWhile_isBlank cs.reverse

end

section
variable {s w rest token text : String}

theorem solid_of_all (h : s.toList.all (fun c => !isBlank c) = true) :
    ∀ c ∈ s.toList, isBlank c = false := by
  simpa using h

/-- The words of a text are its maximal runs and nothing else. -/
theorem divided_words_iff {ws : List String} :
    Divided s.toList (ws.map String.toList) ↔ ws = words s := by
  rw [divided_iff, words]
  constructor
  · intro h
    rw [h, List.map_map]
    simp [Function.comp_def]
  · rintro rfl
    simp [List.map_map, Function.comp_def]

theorem length_flatMap_words (s : String) :
    ((words s).flatMap String.toList).length = ink s.toList := by
  have hdivided : Divided s.toList ((words s).map String.toList) := divided_words_iff.mpr rfl
  rw [List.flatMap_def, hdivided.length_flatten]

theorem isWord_of_mem_words (h : w ∈ words s) : IsWord w := by
  have hdivided : Divided s.toList ((words s).map String.toList) := divided_words_iff.mpr rfl
  obtain ⟨hne, hsolid⟩ := hdivided.solid (List.mem_map_of_mem h)
  exact ⟨by simpa using hne, hsolid⟩

theorem IsWord.toList_ne_nil (h : IsWord w) : w.toList ≠ [] := by
  simpa using h.1

theorem words_append_space (h : IsWord w) (rest : String) :
    words (w ++ " " ++ rest) = w :: words rest := by
  have hspace : (w ++ " " ++ rest).toList = w.toList ++ ' ' :: rest.toList := by simp
  have hruns : runs (w.toList ++ ' ' :: rest.toList) = w.toList :: runs rest.toList := by
    rw [runs_append h.toList_ne_nil h.2 (by rintro c ⟨⟩; rfl), runs_cons_blank rfl]
  simp [words, hspace, hruns]

theorem words_eq_singleton (h : IsWord w) : words w = [w] := by
  have hruns : runs (w.toList ++ []) = w.toList :: runs [] :=
    runs_append h.toList_ne_nil h.2 (by simp)
  rw [List.append_nil, runs_nil] at hruns
  simp [words, hruns]

/-- A text with something at both its ends. -/
structure Trimmed (s : String) : Prop where
  nonempty : s ≠ ""
  first : ∀ c ∈ s.toList.head?, isBlank c = false
  last : ∀ c ∈ s.toList.getLast?, isBlank c = false

theorem IsWord.trimmed (h : IsWord w) : Trimmed w :=
  ⟨h.1, fun c hc => h.2 c (List.mem_of_mem_head? hc),
    fun c hc => h.2 c (List.mem_of_mem_getLast? hc)⟩

theorem Trimmed.append_space (hw : IsWord w) (hr : Trimmed rest) :
    Trimmed (w ++ " " ++ rest) := by
  refine ⟨by simp, ?_, ?_⟩
  · intro c hc
    obtain ⟨d, ds, hd⟩ := List.exists_cons_of_ne_nil hw.toList_ne_nil
    have hcd : d = c := by simpa [hd] using hc
    exact hcd ▸ hw.2 d (by simp [hd])
  · intro c hc
    have hrest : rest.toList ≠ [] := by simpa using hr.nonempty
    rw [String.toList_append, List.getLast?_append, List.getLast?_eq_some_getLast hrest,
      Option.some_or, ← List.getLast?_eq_some_getLast hrest] at hc
    exact hr.last c hc

/-- A text is what is left of a token without the blanks at its ends. -/
structure Trims (token text : String) : Prop where
  around : ∃ left right : String, token = left ++ text ++ right ∧
    (∀ c ∈ left.toList, isBlank c = true) ∧ ∀ c ∈ right.toList, isBlank c = true
  first : ∀ c ∈ text.toList.head?, isBlank c = false
  last : ∀ c ∈ text.toList.getLast?, isBlank c = false

theorem Trimmed.trims_self (h : Trimmed s) : Trims s s :=
  ⟨⟨"", "", by simp, by simp, by simp⟩, h.first, h.last⟩

theorem trims_trim (token : String) : Trims token (trim token) := by
  obtain ⟨right, hsplit, hright, hlast⟩ :=
    exists_dropTrailingBlanks (token.toList.dropWhile isBlank)
  have htrim : (trim token).toList = dropTrailingBlanks (token.toList.dropWhile isBlank) := by
    rw [trim, String.toList_ofList, trimBlanks]
  refine ⟨⟨String.ofList (token.toList.takeWhile isBlank), String.ofList right, ?_, ?_, ?_⟩, ?_, ?_⟩
  · apply String.toList_inj.mp
    rw [String.toList_append, String.toList_append, String.toList_ofList, String.toList_ofList,
      htrim, List.append_assoc, ← hsplit, List.takeWhile_append_dropWhile]
  · rw [String.toList_ofList]
    intro c hc
    exact List.all_eq_true.mp List.all_takeWhile c hc
  · rwa [String.toList_ofList]
  · rw [htrim]
    intro c hc
    apply head?_dropWhile_isBlank token.toList c
    rw [hsplit, List.head?_append, Option.mem_def.mp hc]
    rfl
  · rwa [htrim]

/-- Every token has one text without the blanks at its ends. -/
theorem trims_iff : Trims token text ↔ text = trim token := by
  constructor
  · rintro ⟨⟨left, right, rfl, hleft, hright⟩, hfirst, hlast⟩
    apply String.toList_inj.mp
    rw [trim, String.toList_ofList, String.toList_append, String.toList_append,
      trimBlanks_surround hleft hright, trimBlanks_eq_self hfirst hlast]
  · rintro rfl
    exact trims_trim token

/-- What is trimmed stays as it is. -/
theorem trim_trim (s : String) : trim (trim s) = trim s := by
  have htrims := trims_trim s
  symm
  exact trims_iff.mp ⟨⟨"", "", by simp, by simp, by simp⟩, htrims.first, htrims.last⟩

/-- Trimming a text changes none of its words. -/
theorem words_trim (s : String) : words (trim s) = words s := by
  obtain ⟨left, right, hsplit, hleft, hright⟩ := (trims_trim s).around
  have hlist : s.toList = left.toList ++ ((trim s).toList ++ right.toList) := by
    simpa using congrArg String.toList hsplit
  rw [words, words, hlist, runs_blank_append hleft, runs_append_blank hright]

end

end RegisterMachine.Text

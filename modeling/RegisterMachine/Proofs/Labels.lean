import Mathlib.Data.List.Induction
import Mathlib.Logic.ExistsUnique
import Mathlib.Order.Bounds.Basic
import Mathlib.Order.WellFounded
import RegisterMachine.Proofs.ControlFlow
import RegisterMachine.Proofs.TextbookView

namespace RegisterMachine

/-- A scan has met labels: it has seen those that occur, and notes those that do so twice. -/
structure LabelScan.Met (scan : LabelScan) (labels : List String) : Prop where
  seen : ∀ label, scan.seen.contains label = true ↔ label ∈ labels
  repeated : ∀ label, label ∈ scan.repeated ↔ 2 ≤ labels.count label

namespace LabelScan
variable {scan : LabelScan} {labels : List String}

/-- A label is noted when it is met for the second time. -/
theorem Met.repeated_meet (h : scan.Met labels) (label : String) :
    (scan.meet label).repeated = scan.repeated ++ [label].filter (labels.count · = 1) := by
  have hseen : scan.seen.contains label = true ↔ 1 ≤ labels.count label := by
    rw [h.seen, Nat.one_le_iff_ne_zero, ne_eq, List.count_eq_zero, not_not]
  have hrepeated : scan.repeated.contains label = true ↔ 2 ≤ labels.count label := by
    rw [List.contains_iff_mem, h.repeated]
  have hsecond : (scan.seen.contains label && !scan.repeated.contains label) = true ↔
      labels.count label = 1 := by
    rw [Bool.and_eq_true, Bool.not_eq_true_eq_eq_false, ← Bool.not_eq_true, hseen, hrepeated]
    omega
  unfold meet
  by_cases hcount : labels.count label = 1
  · simp only [if_pos (hsecond.mpr hcount)]
    simp [hcount]
  · simp only [if_neg (mt hsecond.mp hcount)]
    simp [hcount]

theorem Met.meet (h : scan.Met labels) (label : String) :
    (scan.meet label).Met (labels ++ [label]) := by
  refine ⟨?_, ?_⟩
  · intro other
    rw [LabelScan.meet, Std.TreeSet.contains_insert, Bool.or_eq_true, beq_iff_eq,
      Std.LawfulEqCmp.compare_eq_iff_eq, h.seen, List.mem_append, List.mem_singleton, or_comm,
      eq_comm]
  · intro other
    rw [h.repeated_meet, List.mem_append, h.repeated, List.count_append, List.mem_filter,
      List.mem_singleton, decide_eq_true_eq, List.count_singleton]
    by_cases hother : other = label
    · subst hother
      simp only [true_and, beq_self_eq_true, if_true]
      omega
    · simp [hother, Ne.symm hother]

theorem met_foldl (labels : List String) : (labels.foldl LabelScan.meet {}).Met labels := by
  induction labels using List.reverseRecOn with
  | nil => exact ⟨by simp, by simp⟩
  | append_singleton labels label ih =>
    rw [List.foldl_append]
    exact ih.meet label

end LabelScan

namespace Program

/-- The operation at an index carries a label. -/
def Carries (program : Program) (label : String) (index : Nat) : Prop :=
  ∃ operation, program.operations[index]? = some operation ∧ operation.label = some label

/-- The operation at an index carries a label that exactly one operation before it carries. -/
def SecondLabelled (program : Program) (label : String) (index : Nat) : Prop :=
  program.Carries label index ∧ ∃! first, first < index ∧ program.Carries label first

/-- The second operation with the one label stands before the second one with the other. -/
def RepeatsBefore (program : Program) (label other : String) : Prop :=
  ∃ i j, program.SecondLabelled label i ∧ program.SecondLabelled other j ∧ i < j

/-- The operation at an index carries a label, but stands behind the one that is found under it. -/
def Shadowed (program : Program) (label : String) (index : Nat) : Prop :=
  ∃ first, program.findLabel label = some first ∧ first < index ∧ program.Carries label index

/-- A jump to a label can take the pointer to an index, once the step that it belongs to has moved
the pointer on. -/
def JumpReaches (program : Program) (label : String) (index : Nat) : Prop :=
  ∃ w after, Workspace.jumpTo program label w = .ok () after ∧
    (Session.advancePointer after.memory.instructionPointer).toInt = index

section
variable {program : Program} {operation : Operation} {label other : String} {i j index : Nat}

theorem Carries.lt_size (h : program.Carries label i) : i < program.size := by
  obtain ⟨operation, hop, _⟩ := h
  exact (Array.getElem?_eq_some_iff.mp hop).1

theorem not_carries_empty : ¬ empty.Carries label i :=
  fun h => absurd h.lt_size (Nat.not_lt_zero i)

theorem Carries.label_eq (h : program.Carries label i) (h' : program.Carries other i) :
    label = other := by
  obtain ⟨operation, hop, hlabel⟩ := h
  obtain ⟨_, hop', hlabel'⟩ := h'
  cases hop.symm.trans hop'
  exact Option.some.inj (hlabel.symm.trans hlabel')

theorem findLabel_eq_some_iff_isLeast :
    program.findLabel label = some index ↔ IsLeast {i | program.Carries label i} index := by
  rw [findLabel_eq_some_iff]
  constructor
  · rintro ⟨hcarries, hbefore⟩
    refine ⟨hcarries, ?_⟩
    rintro i ⟨operation, hop, hlabel⟩
    by_contra hlt
    exact hbefore i (Nat.lt_of_not_le hlt) operation hop hlabel
  · rintro ⟨hcarries, hleast⟩
    refine ⟨hcarries, ?_⟩
    intro i hlt operation hop hlabel
    exact absurd (hleast ⟨operation, hop, hlabel⟩) (Nat.not_le_of_lt hlt)

theorem exists_carries_iff : (∃ i, program.Carries label i) ↔
    ∃ operation ∈ program.operations, operation.label = some label := by
  constructor
  · rintro ⟨i, operation, hop, hlabel⟩
    exact ⟨operation, Array.mem_of_getElem? hop, hlabel⟩
  · rintro ⟨operation, hmem, hlabel⟩
    obtain ⟨i, hop⟩ := Array.mem_iff_getElem?.mp hmem
    exact ⟨i, operation, hop, hlabel⟩

theorem findLabel_eq_none_iff :
    program.findLabel label = none ↔ ∀ i, ¬ program.Carries label i := by
  rw [← not_exists, exists_carries_iff, findLabel, Array.findIdx?_eq_none_iff]
  simp

/-- A program with one more operation at its end. -/
def push (program : Program) (operation : Operation) : Program :=
  ⟨program.operations.push operation⟩

/-- Every program grows from the empty one by operations at its end. -/
@[elab_as_elim]
theorem push_induction {motive : Program → Prop} (empty : motive .empty)
    (push : ∀ program operation, motive program → motive (program.push operation))
    (program : Program) : motive program := by
  obtain ⟨⟨operations⟩⟩ := program
  induction operations using List.reverseRecOn with
  | nil => exact empty
  | append_singleton operations operation ih =>
    have hpush := push ⟨⟨operations⟩⟩ operation ih
    simpa only [Program.push, List.push_toArray] using hpush

theorem carries_push : (program.push operation).Carries label i ↔
    program.Carries label i ∨ i = program.size ∧ operation.label = some label := by
  unfold Carries push size
  rw [Array.getElem?_push]
  split
  · rename_i hi
    subst hi
    simp
  · rename_i hi
    simp [hi]

theorem carries_push_of_lt (hi : i < program.size) :
    (program.push operation).Carries label i ↔ program.Carries label i := by
  rw [carries_push]
  exact or_iff_left fun h => Nat.ne_of_lt hi h.1

/-- An operation that is added is the second with its label if the label stands once before. -/
theorem secondLabelled_push : (program.push operation).SecondLabelled label i ↔
    program.SecondLabelled label i ∨
      i = program.size ∧ operation.label = some label ∧ ∃! first, program.Carries label first := by
  -- Up to the new operation nothing changes, and up to there is all that was there before.
  have hbelow : i ≤ program.size → ∀ first,
      (first < i ∧ (program.push operation).Carries label first ↔
        first < i ∧ program.Carries label first) := by
    intro hi first
    exact and_congr_right fun hlt => carries_push_of_lt (Nat.lt_of_lt_of_le hlt hi)
  have hall : ∀ first, first < program.size ∧ program.Carries label first ↔
      program.Carries label first :=
    fun first => and_iff_right_of_imp Carries.lt_size
  constructor
  · rintro ⟨hcarries, hsole⟩
    rcases carries_push.mp hcarries with hold | ⟨rfl, hlabel⟩
    · rw [existsUnique_congr (hbelow (Nat.le_of_lt hold.lt_size))] at hsole
      exact .inl ⟨hold, hsole⟩
    · rw [existsUnique_congr (hbelow (Nat.le_refl _)), existsUnique_congr hall] at hsole
      exact .inr ⟨rfl, hlabel, hsole⟩
  · rintro (⟨hcarries, hsole⟩ | ⟨rfl, hlabel, hsole⟩)
    · refine ⟨carries_push.mpr (.inl hcarries), ?_⟩
      rwa [existsUnique_congr (hbelow (Nat.le_of_lt hcarries.lt_size))]
    · refine ⟨carries_push.mpr (.inr ⟨rfl, hlabel⟩), ?_⟩
      rwa [existsUnique_congr (hbelow (Nat.le_refl _)), existsUnique_congr hall]

theorem labels_push (program : Program) (operation : Operation) :
    (program.push operation).labels = program.labels ++ operation.label.toList := by
  unfold labels push
  rw [Array.toList_push, List.filterMap_append]
  cases hlabel : operation.label with
  | none => simp [hlabel]
  | some label => simp [hlabel]

theorem count_labels_push (program : Program) (operation : Operation) (label : String) :
    (program.push operation).labels.count label =
      program.labels.count label + if operation.label = some label then 1 else 0 := by
  rw [labels_push, List.count_append]
  cases operation.label with
  | none => simp
  | some other => simp [List.count_singleton]

theorem count_labels_eq_zero_iff :
    program.labels.count label = 0 ↔ ∀ i, ¬ program.Carries label i := by
  rw [← not_exists, exists_carries_iff, List.count_eq_zero, labels, List.mem_filterMap]
  simp

theorem count_labels_eq_one_iff :
    program.labels.count label = 1 ↔ ∃! i, program.Carries label i := by
  induction program using push_induction with
  | empty =>
    refine iff_of_false Nat.zero_ne_one ?_
    rintro ⟨i, hcarries, _⟩
    exact not_carries_empty hcarries
  | push program operation ih =>
    rw [count_labels_push]
    by_cases hlabel : operation.label = some label
    · -- The new operation carries the label, so it is the only one if none does before it.
      rw [if_pos hlabel, Nat.add_eq_right, count_labels_eq_zero_iff]
      constructor
      · intro hnone
        refine ⟨program.size, carries_push.mpr (.inr ⟨rfl, hlabel⟩), ?_⟩
        intro i hcarries
        rcases carries_push.mp hcarries with hold | ⟨hi, _⟩
        · exact absurd hold (hnone i)
        · exact hi
      · rintro ⟨index, _, honly⟩ i hcarries
        have hi := honly i (carries_push.mpr (.inl hcarries))
        have hsize := honly program.size (carries_push.mpr (.inr ⟨rfl, hlabel⟩))
        have hlt := hcarries.lt_size
        omega
    · rw [if_neg hlabel, Nat.add_zero, ih]
      refine existsUnique_congr fun i => ?_
      rw [carries_push]
      exact (or_iff_left fun h => hlabel h.2).symm

/-- The label of an operation behind a program, if it stands in the program once. -/
def repeated (program : Program) (operation : Operation) : List String :=
  operation.label.toList.filter (program.labels.count · = 1)

theorem mem_repeated : label ∈ program.repeated operation ↔
    operation.label = some label ∧ ∃! first, program.Carries label first := by
  rw [repeated, List.mem_filter, Option.mem_toList, decide_eq_true_eq, count_labels_eq_one_iff]

theorem duplicateLabels_push (program : Program) (operation : Operation) :
    (program.push operation).duplicateLabels =
      program.duplicateLabels ++ program.repeated operation := by
  have hmet := LabelScan.met_foldl program.labels
  rw [duplicateLabels, labels_push, List.foldl_append, repeated]
  cases operation.label with
  | none => simp [duplicateLabels]
  | some label =>
    simp only [Option.toList_some, List.foldl_cons, List.foldl_nil, hmet.repeated_meet]
    rfl

theorem mem_duplicateLabels_iff_second :
    label ∈ program.duplicateLabels ↔ ∃ i, program.SecondLabelled label i := by
  induction program using push_induction with
  | empty =>
    refine iff_of_false List.not_mem_nil ?_
    rintro ⟨i, hcarries, _⟩
    exact not_carries_empty hcarries
  | push program operation ih =>
    simp only [duplicateLabels_push, List.mem_append, mem_repeated, secondLabelled_push, ih,
      exists_or, exists_eq_left]

theorem RepeatsBefore.push (h : program.RepeatsBefore label other) (operation : Operation) :
    (program.push operation).RepeatsBefore label other := by
  obtain ⟨i, j, hi, hj, hlt⟩ := h
  exact ⟨i, j, secondLabelled_push.mpr (.inl hi), secondLabelled_push.mpr (.inl hj), hlt⟩

theorem pairwise_duplicateLabels (program : Program) :
    program.duplicateLabels.Pairwise program.RepeatsBefore := by
  induction program using push_induction with
  | empty => exact .nil
  | push program operation ih =>
    rw [duplicateLabels_push, List.pairwise_append]
    refine ⟨ih.imp fun h => h.push operation, ?_, ?_⟩
    · refine List.Pairwise.filter _ ?_
      cases operation.label with
      | none => exact .nil
      | some label => exact List.pairwise_singleton ..
    · intro earlier hearlier label hlabel
      obtain ⟨i, hi⟩ := mem_duplicateLabels_iff_second.mp hearlier
      have hnew := secondLabelled_push.mpr (.inr ⟨rfl, mem_repeated.mp hlabel⟩)
      exact ⟨i, program.size, secondLabelled_push.mpr (.inl hi), hnew, hi.1.lt_size⟩

theorem SecondLabelled.not_lt (hi : program.SecondLabelled label i)
    (hj : program.SecondLabelled label j) : ¬ i < j := by
  intro hlt
  obtain ⟨hcarries, first, ⟨hfirst, hcarries'⟩, _⟩ := hi
  have heq := hj.2.unique ⟨hlt, hcarries⟩ ⟨Nat.lt_trans hfirst hlt, hcarries'⟩
  omega

theorem nodup_duplicateLabels (program : Program) : program.duplicateLabels.Nodup := by
  refine (pairwise_duplicateLabels program).imp ?_
  rintro label _ ⟨i, j, hi, hj, hlt⟩ rfl
  exact hi.not_lt hj hlt

/-- The least index behind another with the same label is where the label stands for the second
time. -/
theorem exists_second_iff : (∃ i, program.SecondLabelled label i) ↔
    ∃ i j, i < j ∧ program.Carries label i ∧ program.Carries label j := by
  constructor
  · rintro ⟨j, hj, i, ⟨hlt, hi⟩, _⟩
    exact ⟨i, j, hlt, hi, hj⟩
  · rintro ⟨i, j, hlt, hi, hj⟩
    obtain ⟨second, ⟨⟨first, hfirst, hcarries⟩, hsecond⟩, hleast⟩ := wellFounded_lt.has_min
      {j | (∃ i < j, program.Carries label i) ∧ program.Carries label j} ⟨j, ⟨i, hlt, hi⟩, hj⟩
    refine ⟨second, hsecond, first, ⟨hfirst, hcarries⟩, ?_⟩
    rintro k ⟨hk, hk'⟩
    rcases Nat.lt_trichotomy k first with hbefore | heq | hbehind
    · exact absurd hfirst (hleast first ⟨⟨k, hbefore, hk'⟩, hcarries⟩)
    · exact heq
    · exact absurd hk (hleast k ⟨⟨first, hbehind, hcarries⟩, hk'⟩)

theorem mem_duplicateLabels_iff : label ∈ program.duplicateLabels ↔
    ∃ i j, i < j ∧ program.Carries label i ∧ program.Carries label j :=
  mem_duplicateLabels_iff_second.trans exists_second_iff

theorem mem_duplicateLabels_iff_shadowed :
    label ∈ program.duplicateLabels ↔ ∃ later, program.Shadowed label later := by
  rw [mem_duplicateLabels_iff]
  constructor
  · rintro ⟨i, j, hlt, hi, hj⟩
    cases hfind : program.findLabel label with
    | none => exact absurd hi (findLabel_eq_none_iff.mp hfind i)
    | some first =>
      have hle : first ≤ i := (findLabel_eq_some_iff_isLeast.mp hfind).2 hi
      exact ⟨j, first, hfind, Nat.lt_of_le_of_lt hle hlt, hj⟩
  · rintro ⟨later, first, hfind, hlt, hcarries⟩
    exact ⟨first, later, hlt, (findLabel_eq_some_iff_isLeast.mp hfind).1, hcarries⟩

theorem Shadowed.lt_size (h : program.Shadowed label index) : index < program.size := by
  obtain ⟨_, _, _, hcarries⟩ := h
  exact hcarries.lt_size

/-- An operation has no other label under which it could be found. -/
theorem Shadowed.findLabel_ne (h : program.Shadowed label index) (target : String) :
    program.findLabel target ≠ some index := by
  obtain ⟨first, hfind, hlt, hcarries⟩ := h
  intro hfound
  have htarget : program.Carries target index := (findLabel_eq_some_iff_isLeast.mp hfound).1
  cases htarget.label_eq hcarries
  cases hfind.symm.trans hfound
  exact Nat.lt_irrefl _ hlt

/-- A jump reaches the one operation that is found under its label. -/
theorem jumpReaches_iff (haddr : program.Addressable) (hi : index < program.size) :
    program.JumpReaches label index ↔ program.findLabel label = some index := by
  unfold JumpReaches Workspace.jumpTo
  cases hfind : program.findLabel label with
  | none => simp [Action.throw_apply]
  | some found =>
    have hfound := (findLabel_eq_some_iff_isLeast.mp hfind).1.lt_size
    have hstands := Ram.stands_jump haddr hfound index hi
    simp only [Workspace.modifyMemory_apply, EStateM.Result.ok.injEq, true_and,
      exists_eq_left', Option.some.injEq]
    exact ⟨fun ⟨_, h⟩ => hstands.mp h, fun h => ⟨{}, hstands.mpr h⟩⟩

end

/-- Labels are looked up and reported exactly. A label is found at the least index that carries it,
if there is one. Reported are the labels that two operations carry, each of them once, in the order
of the second of these operations. They are the labels of operations behind the one that is found
under the label: such an operation is found under no label at all and no jump reaches it, whereas
jumps to its label reach the one that is found. -/
theorem label_tables_are_exact (program : Program) (label : String) :
    (∀ index, program.findLabel label = some index ↔
      IsLeast {i | program.Carries label i} index) ∧
    (program.findLabel label = none ↔ ∀ i, ¬ program.Carries label i) ∧
    (label ∈ program.duplicateLabels ↔
      ∃ i j, i < j ∧ program.Carries label i ∧ program.Carries label j) ∧
    program.duplicateLabels.Nodup ∧
    program.duplicateLabels.Pairwise program.RepeatsBefore ∧
    (label ∈ program.duplicateLabels ↔ ∃ later, program.Shadowed label later) ∧
    (∀ later target, program.Shadowed label later → program.findLabel target ≠ some later) ∧
    (program.Addressable →
      (∀ first, program.findLabel label = some first → program.JumpReaches label first) ∧
      ∀ later target, program.Shadowed label later → ¬ program.JumpReaches target later) := by
  refine ⟨fun _ => findLabel_eq_some_iff_isLeast, findLabel_eq_none_iff, mem_duplicateLabels_iff,
    nodup_duplicateLabels program, pairwise_duplicateLabels program,
    mem_duplicateLabels_iff_shadowed, fun _ target h => h.findLabel_ne target, ?_⟩
  intro haddr
  refine ⟨?_, ?_⟩
  · intro first hfind
    have hcarries := (findLabel_eq_some_iff_isLeast.mp hfind).1
    exact (jumpReaches_iff haddr hcarries.lt_size).mpr hfind
  · intro later target hshadowed hreaches
    exact hshadowed.findLabel_ne target ((jumpReaches_iff haddr hshadowed.lt_size).mp hreaches)

/-- Both labels stand more than once, and the one that comes first is the last to be repeated. -/
def tangled : Program :=
  (Ram.unloaded.load
    ["b: read 1", "a: jzero b", "write 1", "a: sub =1", "b: jump a", "a: halt"]).1.program

theorem label_tables_are_exact_tangled :
    tangled.duplicateLabels = ["a", "b"] ∧ tangled.Shadowed "a" 5 ∧
      tangled.JumpReaches "a" 1 ∧ ∀ target, ¬ tangled.JumpReaches target 5 := by
  obtain ⟨hduplicates, hfind, hsize, hlabel⟩ :
      tangled.duplicateLabels = ["a", "b"] ∧ tangled.findLabel "a" = some 1 ∧ tangled.size = 6 ∧
        tangled.operations[5]?.map (·.label) = some (some "a") := by decide +kernel
  have hshadowed : tangled.Shadowed "a" 5 :=
    ⟨1, hfind, by decide, Option.map_eq_some_iff.mp hlabel⟩
  have haddr : tangled.Addressable := by
    rw [Addressable, hsize]
    decide
  obtain ⟨_, _, _, _, _, _, _, hjumps⟩ := label_tables_are_exact tangled "a"
  refine ⟨hduplicates, hshadowed, (hjumps haddr).1 1 hfind, ?_⟩
  intro target
  exact (hjumps haddr).2 5 target hshadowed

end Program

end RegisterMachine

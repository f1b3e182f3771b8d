import Mathlib.Data.Finset.Card
import Mathlib.Data.List.Induction
import RegisterMachine.Proofs.Requests

namespace RegisterMachine

namespace NamedRegisters
variable {α : Type} {declarations : List (String × α)} {name : String} {accessor : α}

/-- The names of declarations, folded, one for each. -/
def keys (declarations : List (String × α)) : List String :=
  declarations.map fun declaration => Text.foldCase declaration.1

/-- What a name was declared for last, however it was written there. -/
def LastDeclared (declarations : List (String × α)) (name : String) (accessor : α) : Prop :=
  ∃ earlier spelling later, declarations = earlier ++ (spelling, accessor) :: later ∧
    Text.foldCase spelling = Text.foldCase name ∧ Text.foldCase name ∉ keys later

theorem ofList_concat (declarations : List (String × α)) (declaration : String × α) :
    ofList (declarations ++ [declaration]) =
      (ofList declarations).declare declaration.1 declaration.2 := by
  simp only [ofList, List.foldl_append, List.foldl_cons, List.foldl_nil]

theorem keys_concat (declarations : List (String × α)) (declaration : String × α) :
    keys (declarations ++ [declaration]) =
      keys declarations ++ [Text.foldCase declaration.1] := by
  simp only [keys, List.map_append, List.map_cons, List.map_nil]

theorem mem_keys_concat {key : String} {declaration : String × α} :
    key ∈ keys (declarations ++ [declaration]) ↔
      key ∈ keys declarations ∨ key = Text.foldCase declaration.1 := by
  rw [keys_concat, List.mem_append, List.mem_singleton]

theorem mem_names_ofList {key : String} :
    key ∈ (ofList declarations).names ↔ key ∈ keys declarations := by
  induction declarations using List.reverseRecOn with
  | nil => exact Iff.rfl
  | append_singleton declarations declaration ih =>
    rw [ofList_concat, names_declare, mem_keys_concat, ← ih]
    split
    · rename_i hknown
      exact (or_iff_left_of_imp fun hkey => hkey ▸ hknown).symm
    · rw [List.mem_append, List.mem_singleton]

/-- A name keeps the place of its first declaration. -/
theorem pairwise_names_ofList (declarations : List (String × α)) :
    (ofList declarations).names.Pairwise fun key other =>
      (keys declarations).idxOf key < (keys declarations).idxOf other := by
  induction declarations using List.reverseRecOn with
  | nil => exact .nil
  | append_singleton declarations declaration ih =>
    -- What was declared before is found at the same index in the longer list.
    have hkept : ∀ key ∈ (ofList declarations).names,
        (keys (declarations ++ [declaration])).idxOf key = (keys declarations).idxOf key := by
      intro key hkey
      rw [keys_concat, List.idxOf_append_of_mem (mem_names_ofList.mp hkey)]
    have hold : (ofList declarations).names.Pairwise fun key other =>
        (keys (declarations ++ [declaration])).idxOf key <
          (keys (declarations ++ [declaration])).idxOf other := by
      refine ih.imp_of_mem fun hkey hother hlt => ?_
      rwa [hkept _ hkey, hkept _ hother]
    rw [ofList_concat, names_declare]
    split
    · exact hold
    · rename_i hnew
      rw [List.pairwise_append]
      refine ⟨hold, List.pairwise_singleton .., ?_⟩
      intro key hkey other hother
      rw [List.mem_singleton.mp hother, hkept key hkey, keys_concat,
        List.idxOf_append_of_notMem fun h => hnew (mem_names_ofList.mpr h)]
      exact Nat.lt_add_right _ (List.idxOf_lt_length_of_mem (mem_names_ofList.mp hkey))

theorem size_ofList (declarations : List (String × α)) :
    (ofList declarations).size = (keys declarations).toFinset.card := by
  have hsame : (keys declarations).toFinset = (ofList declarations).names.toFinset := by
    ext key
    rw [List.mem_toFinset, List.mem_toFinset, mem_names_ofList]
  rw [hsame, List.toFinset_card_of_nodup (ofList declarations).nodup]
  rfl

theorem lastDeclared_concat {declaration : String × α} :
    LastDeclared (declarations ++ [declaration]) name accessor ↔
      if Text.foldCase name = Text.foldCase declaration.1 then declaration.2 = accessor
      else LastDeclared declarations name accessor := by
  constructor
  · rintro ⟨earlier, spelling, later, hsplit, hspelling, hlater⟩
    rcases List.eq_nil_or_concat later with rfl | ⟨later, last, rfl⟩
    · obtain ⟨_, hlast⟩ := List.append_inj' hsplit rfl
      cases hlast
      rw [if_pos hspelling.symm]
    · rw [List.concat_eq_append, ← List.cons_append, ← List.append_assoc] at hsplit
      obtain ⟨hinit, hlast⟩ := List.append_inj' hsplit rfl
      cases hlast
      rw [List.concat_eq_append, mem_keys_concat, not_or] at hlater
      rw [if_neg hlater.2]
      exact ⟨earlier, spelling, later, hinit, hspelling, hlater.1⟩
  · split
    · rename_i hname
      rintro rfl
      exact ⟨declarations, declaration.1, [], rfl, hname.symm, List.not_mem_nil⟩
    · rename_i hname
      rintro ⟨earlier, spelling, later, rfl, hspelling, hlater⟩
      refine ⟨earlier, spelling, later ++ [declaration], by simp, hspelling, ?_⟩
      rw [mem_keys_concat, not_or]
      exact ⟨hlater, hname⟩

theorem lookup_ofList_eq_some_iff :
    (ofList declarations).lookup name = some accessor ↔
      LastDeclared declarations name accessor := by
  induction declarations using List.reverseRecOn with
  | nil =>
    refine iff_of_false nofun ?_
    rintro ⟨earlier, spelling, later, hsplit, _⟩
    simp at hsplit
  | append_singleton declarations declaration ih =>
    rw [ofList_concat, lookup_declare, lastDeclared_concat]
    split
    · rw [Option.some.injEq]
    · exact ih

theorem lookup_ofList_eq_none_iff :
    (ofList declarations).lookup name = none ↔ Text.foldCase name ∉ keys declarations := by
  rw [← mem_names_ofList, ← isSome_lookup, Option.not_isSome_iff_eq_none]

/-- A table shows what was declared: each name once, at the place of its first declaration and with
what its last one says. -/
structure Follows (named : NamedRegisters α) (declarations : List (String × α)) : Prop where
  nodup : named.names.Nodup
  declared : ∀ key, key ∈ named.names ↔ key ∈ keys declarations
  order : named.names.Pairwise fun key other =>
    (keys declarations).idxOf key < (keys declarations).idxOf other
  size : named.size = (keys declarations).toFinset.card
  known : ∀ name accessor,
    named.lookup name = some accessor ↔ LastDeclared declarations name accessor
  unknown : ∀ name, named.lookup name = none ↔ Text.foldCase name ∉ keys declarations

theorem follows_ofList (declarations : List (String × α)) :
    (ofList declarations).Follows declarations where
  nodup := (ofList declarations).nodup
  declared _ := mem_names_ofList
  order := pairwise_names_ofList declarations
  size := size_ofList declarations
  known _ _ := lookup_ofList_eq_some_iff
  unknown _ := lookup_ofList_eq_none_iff

end NamedRegisters

namespace Memory
variable {memory : Memory}

theorem exists_readNamed_iff {name : String} :
    (∃ held, memory.readNamed name = some held) ↔ memory.named.lookup name ≠ none := by
  rw [← Option.isSome_iff_exists, readNamed, Option.isSome_map, Option.isSome_iff_ne_none]

/-- A write by name goes through, or there is no such name and it changes nothing. -/
theorem written_named (memory : Memory) (name : String) (value : Int64) :
    memory.written (.named name value) =
      match memory.named.lookup name with
      | some part => (memory.write value part, true)
      | none => (memory, false) := by
  simp only [written, writeNamed]
  cases memory.named.lookup name with
  | none => rfl
  | some part => rfl

end Memory

namespace NamedRegisters

/-- The names of registers stay consistent whatever is declared. A table of them follows its
declarations; and a memory with such a table can be read by the names under which it can be written,
which are those that were declared, while a write by any other name leaves it as it was. -/
theorem table_follows_declarations :
    (∀ (α : Type) (declarations : List (String × α)),
      (ofList declarations).Follows declarations) ∧
    ∀ (declarations : List (String × Accessor)) (memory : Memory),
      memory.named = ofList declarations → ∀ name value,
        ((∃ held, memory.readNamed name = some held) ↔
          (memory.written (.named name value)).2 = true) ∧
        ((∃ held, memory.readNamed name = some held) ↔
          Text.foldCase name ∈ keys declarations) ∧
        (Text.foldCase name ∉ keys declarations →
          (memory.written (.named name value)).1 = memory) := by
  refine ⟨fun _ => follows_ofList, ?_⟩
  intro declarations memory hnamed name value
  rw [Memory.exists_readNamed_iff, Memory.written_named, hnamed]
  refine ⟨?_, ?_, ?_⟩
  · cases (ofList declarations).lookup name with
    | none => simp
    | some part => simp
  · rw [ne_eq, lookup_ofList_eq_none_iff, not_not]
  · intro hundeclared
    rw [lookup_ofList_eq_none_iff.mpr hundeclared]

/-- One name is declared again in capitals, and one has a letter without a capital in ASCII. -/
def redeclared : List (String × Accessor) :=
  [("acc", .accumulator), ("Ip", .instructionPointer), ("ACC", .register 7), ("é", .register 1)]

theorem table_follows_declarations_redeclared :
    (ofList redeclared).names = ["ACC", "IP", "é"] ∧
    (ofList redeclared).lookup "aCc" = some (.register 7) ∧
    (({ named := ofList redeclared } : Memory).written (.named "É" 3)).1 =
      { named := ofList redeclared } := by
  have htable := table_follows_declarations.1 Accessor redeclared
  refine ⟨by decide +kernel, ?_, ?_⟩
  · rw [htable.known]
    refine ⟨redeclared.take 2, "ACC", redeclared.drop 3, rfl, ?_, ?_⟩
    · decide +kernel
    · decide +kernel
  · obtain ⟨_, _, hunchanged⟩ :=
      table_follows_declarations.2 redeclared { named := ofList redeclared } rfl "É" 3
    exact hunchanged (by decide +kernel)

end NamedRegisters

end RegisterMachine

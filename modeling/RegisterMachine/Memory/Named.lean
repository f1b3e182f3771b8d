import RegisterMachine.Text.Basic
import Std.Data.TreeMap.Lemmas

namespace RegisterMachine

/-- A table of names, folded to capitals: what stands behind each name, and the names in the order
of their first declaration. The two parts speak of the same names. -/
structure NamedRegisters (α : Type) where
  accessors : Std.TreeMap String α
  names : List String
  inStep : ∀ key, key ∈ names ↔ key ∈ accessors
  nodup : names.Nodup

namespace NamedRegisters
variable {α : Type}

def empty : NamedRegisters α where
  accessors := ∅
  names := []
  inStep := by simp
  nodup := .nil

def lookup (named : NamedRegisters α) (name : String) : Option α :=
  named.accessors[Text.foldCase name]?

/-- The names when a key is put into a table: a new one comes last. -/
def enlisted (named : NamedRegisters α) (key : String) : List String :=
  if key ∈ named.accessors then named.names else named.names ++ [key]

theorem mem_enlisted (named : NamedRegisters α) (key k : String) :
    k ∈ named.enlisted key ↔ key = k ∨ k ∈ named.accessors := by
  unfold enlisted
  split
  · rename_i hknown
    rw [named.inStep]
    exact (or_iff_right_of_imp fun hkey => hkey ▸ hknown).symm
  · rw [List.mem_append, List.mem_singleton, named.inStep, or_comm, eq_comm]

theorem nodup_enlisted (named : NamedRegisters α) (key : String) :
    (named.enlisted key).Nodup := by
  unfold enlisted
  split
  · exact named.nodup
  · rename_i hnew
    rw [List.nodup_append]
    refine ⟨named.nodup, by simp, ?_⟩
    rintro k hk _ hlast rfl
    rw [List.mem_singleton.mp hlast, named.inStep] at hk
    exact hnew hk

/-- Declares a name; declared again, it keeps its place and takes the new accessor. -/
def declare (named : NamedRegisters α) (name : String) (accessor : α) : NamedRegisters α where
  accessors := named.accessors.insert (Text.foldCase name) accessor
  names := named.enlisted (Text.foldCase name)
  inStep key := by
    rw [mem_enlisted, Std.TreeMap.mem_insert, Std.LawfulEqCmp.compare_eq_iff_eq]
  nodup := named.nodup_enlisted _

def ofList (declarations : List (String × α)) : NamedRegisters α :=
  declarations.foldl (fun named (name, accessor) => named.declare name accessor) empty

def size (named : NamedRegisters α) : Nat :=
  named.names.length

/-- The last declaration of a name counts, in whatever case it is written. -/
theorem lookup_declare (named : NamedRegisters α) (name s : String) (accessor : α) :
    (named.declare name accessor).lookup s =
      if Text.foldCase s = Text.foldCase name then some accessor else named.lookup s := by
  simp only [lookup, declare, Std.TreeMap.getElem?_insert, Std.LawfulEqCmp.compare_eq_iff_eq,
    eq_comm (a := Text.foldCase s)]

/-- A new name comes last; a known one stays where it is. -/
theorem names_declare (named : NamedRegisters α) (name : String) (accessor : α) :
    (named.declare name accessor).names =
      if Text.foldCase name ∈ named.names then named.names
      else named.names ++ [Text.foldCase name] := by
  simp only [declare, enlisted, named.inStep]

/-- A name is known exactly when it is listed. -/
theorem isSome_lookup (named : NamedRegisters α) (name : String) :
    (named.lookup name).isSome ↔ Text.foldCase name ∈ named.names := by
  rw [named.inStep, Std.TreeMap.mem_iff_isSome_getElem?, lookup]

end NamedRegisters

end RegisterMachine

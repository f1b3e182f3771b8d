import RegisterMachine.Operation
import RegisterMachine.Text.Basic
import Std.Data.TreeSet.Lemmas

namespace RegisterMachine

/-- A scan for labels that are met again: those that were met, and of these the ones that were met
more than once, in the order in which that was noticed. -/
structure LabelScan where
  seen : Std.TreeSet String := ∅
  repeated : List String := []

def LabelScan.meet (scan : LabelScan) (label : String) : LabelScan where
  seen := scan.seen.insert label
  repeated :=
    if scan.seen.contains label && !scan.repeated.contains label then scan.repeated ++ [label]
    else scan.repeated

/-- Operations in order; the index of an operation is its place in the execution. -/
structure Program where
  operations : Array Operation
  deriving DecidableEq, Repr

namespace Program

def empty : Program := ⟨#[]⟩

def size (program : Program) : Nat :=
  program.operations.size

/-- The operation that an instruction pointer designates, if it lies inside the program. -/
def at? (program : Program) (pointer : Int64) : Option Operation :=
  if pointer < 0 then none else program.operations[pointer.toInt.toNat]?

/-- The index of the first operation that carries a label. -/
def findLabel (program : Program) (label : String) : Option Nat :=
  program.operations.findIdx? fun operation => operation.label == some label

/-- The labels of the program in order, with repetitions. -/
def labels (program : Program) : List String :=
  program.operations.toList.filterMap fun operation => operation.label

/-- The labels that more than one operation carries, ordered by their second operation. -/
def duplicateLabels (program : Program) : List String :=
  (program.labels.foldl LabelScan.meet {}).repeated

/-- One line of a listing; operations with a label start at the margin. -/
def listingLine (operation : Operation) (index : Nat) : String :=
  let indent := if operation.label.isSome then "" else "    "
  Text.flushRight 3 (Text.natural index) ++ " | " ++ indent ++ operation.raw ++ "\n"

/-- The program with the index of each operation. -/
def listing (program : Program) : String :=
  String.join (program.operations.toList.zipIdx.map fun (operation, index) =>
    listingLine operation index)

end Program

end RegisterMachine

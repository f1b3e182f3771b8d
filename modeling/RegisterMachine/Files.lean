import RegisterMachine.Fault

namespace RegisterMachine

/-- A file with its bytes, or a directory. -/
inductive Node where
  | file (content : ByteArray)
  | directory

/-- The files and directories below a working directory, each with the names on the way to it. -/
structure FileTree where
  nodes : List (List String × Node)

namespace FileTree

def notFound : HostFailure := ⟨true, "No such file or directory (os error 2)"⟩

def notADirectory : HostFailure := ⟨false, "Not a directory (os error 20)"⟩

def isADirectory : HostFailure := ⟨false, "Is a directory (os error 21)"⟩

def nameTooLong : HostFailure := ⟨false, "File name too long (os error 36)"⟩

def nulInName : HostFailure := ⟨false, "file name contained an unexpected NUL byte"⟩

def notText : HostFailure := ⟨false, "stream did not contain valid UTF-8"⟩

/-- What stands at a place. What lies on the way to a node is a directory. -/
def node? (tree : FileTree) (place : List String) : Option Node :=
  match tree.nodes.lookup place with
  | some node => some node
  | none => if tree.nodes.any fun (path, _) => place.isPrefixOf path then some .directory else none

/-- The number of bytes that one name may have. -/
def longestName : Nat := 255

/-- The number of bytes that a path may have. -/
def longestPath : Nat := 4095

/-- Why a path is refused before any directory is looked at: it has a NUL, names nothing, or is
too long as a whole. -/
def refusal? (path : String) : Option HostFailure :=
  if path.toList.any (·.toNat == 0) then some nulInName
  else if path = "" then some notFound
  else if longestPath < path.utf8ByteSize then some nameTooLong
  else none

/-- Follows names from a directory to a file; a name is measured before it is looked up. The
directory is given by the names on the way to it; `none` stands for the directories above the
working directory, of which nothing is known. -/
def follow (tree : FileTree) (place : Option (List String)) :
    List String → Except HostFailure ByteArray
  | [] => .error isADirectory
  | name :: rest =>
    if name = "" ∨ name = "." then tree.follow place rest
    else if name = ".." then
      match place with
      | none | some [] => tree.follow none rest
      | some names => tree.follow (some names.dropLast) rest
    else if longestName < name.utf8ByteSize then .error nameTooLong
    else
      match place with
      | none => .error notFound
      | some names =>
        match tree.node? (names ++ [name]) with
        | none => .error notFound
        | some .directory => tree.follow (some (names ++ [name])) rest
        | some (.file content) =>
          match rest with
          | [] => .ok content
          | _ => .error notADirectory

/-- The names in a path, between its slashes. -/
def names (path : String) : List String :=
  (path.toList.splitOnP (· == '/')).map String.ofList

/-- The bytes of the file at a path. -/
def bytes (tree : FileTree) (path : String) : Except HostFailure ByteArray :=
  match refusal? path with
  | some failure => .error failure
  | none =>
    let place := if path.toList.head? = some '/' then none else some []
    tree.follow place (names path)

/-- The text that bytes encode. -/
def decode (content : ByteArray) : Except HostFailure String :=
  match String.fromUTF8? content with
  | some text => .ok text
  | none => .error notText

/-- The text of the file at a path. -/
def read (tree : FileTree) (path : String) : Except HostFailure String :=
  tree.bytes path >>= decode

end FileTree

/-- What reading the file at a path gives. -/
abbrev Reader := String → Except HostFailure String

/-- Reads a file on behalf of a part of the program, which a fault names with the path. -/
def Reader.readFor (reader : Reader) (origin path : String) : Except Fault String :=
  (reader path).mapError fun failure => (failure.fault.raisedIn origin).noting "path" path

end RegisterMachine

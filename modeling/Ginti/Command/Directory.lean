import Ginti.Command.File

namespace Ginti.Command

/-- What a name stands for. -/
inductive Entry where
  | file (bytes : List UInt8)
  | directory
  deriving DecidableEq, Repr

/-- The entries below the working directory, each with the names that lead to it. -/
structure Directory where
  entries : List (List String × Entry)
  deriving DecidableEq, Repr

/-- Where a walk has come to. -/
inductive Place where
  /-- A directory that contains the working directory. Of what else it contains nothing is
      known, and nothing is found. -/
  | above
  /-- The working directory or a place below it, with the names that lead there. -/
  | below (names : List String)
  deriving DecidableEq, Repr

/-- The directory that contains a place. The outermost one contains itself. -/
def Place.parent : Place → Place
  | above => above
  | below [] => above
  | below names => below names.dropLast

/-- The parts of a path between slashes, some of which may be empty. -/
def pathParts : List Char → List (List Char)
  | [] => [[]]
  | '/' :: rest => [] :: pathParts rest
  | c :: rest =>
    match pathParts rest with
    | [] => [[c]]
    | part :: parts => (c :: part) :: parts

/-- The parts of a path as names. -/
def pathNames (path : String) : List String :=
  (pathParts path.toList).map String.ofList

/-- The names that stay in the directory where they are looked up. -/
def staysHere (name : String) : Bool :=
  name.isEmpty || name == "."

/-- The most bytes that a name can have. -/
def nameLimit : Nat :=
  255

/-- The most bytes that a path can have. -/
def pathLimit : Nat :=
  4095

namespace Directory

/-- The directory with some entries, each under a path of its own. -/
def ofPaths (entries : List (String × Entry)) : Directory :=
  ⟨entries.map fun (path, entry) => ((pathNames path).filter (!staysHere ·), entry)⟩

/-- What is at a place. A place that leads to some entry is a directory even if it is no entry
    itself. -/
def entryAt? (d : Directory) : Place → Option Entry
  | .above => some .directory
  | .below [] => some .directory
  | .below names =>
    match d.entries.lookup names with
    | some entry => some entry
    | none => if d.entries.any (names.isPrefixOf ·.1) then some .directory else none

/-- One part of a walk. Whether the name exists is asked when the walk goes on or ends. -/
def enter (d : Directory) (place : Place) (name : String) : Except OpenFailure Place :=
  match d.entryAt? place with
  | none => .error .missing
  | some (.file _) => .error .notDirectory
  | some .directory =>
    if staysHere name then .ok place
    else if name = ".." then .ok place.parent
    else if nameLimit < name.utf8ByteSize then .error .nameTooLong
    else
      match place with
      | .above => .error .missing
      | .below names => .ok (.below (names ++ [name]))

/-- Where a path leads. A path that starts with a slash starts from the outermost directory. -/
def walk (d : Directory) (path : String) : Except OpenFailure Place :=
  let start := if path.toList.head? = some '/' then .above else .below []
  if path.isEmpty then .error .missing
  else if pathLimit < path.utf8ByteSize then .error .nameTooLong
  else (pathNames path).foldlM d.enter start

/-- The bytes of the file that a path leads to. -/
def read (d : Directory) (path : String) : Except OpenError (List UInt8) :=
  let fail (failure : OpenFailure) : Except OpenError (List UInt8) := .error ⟨failure, path⟩
  match d.walk path with
  | .error failure => fail failure
  | .ok place =>
    match d.entryAt? place with
    | none => fail .missing
    | some .directory => fail .isDirectory
    | some (.file bytes) => .ok bytes

end Directory
end Ginti.Command

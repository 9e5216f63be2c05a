import ScriptBase.Disk.Basic
import ScriptBase.Text.Line

/-!
# Resolving paths

A path as a text is a row of names with slashes between them. It is followed from the root if it
starts with a slash, and from the working directory otherwise. An empty name and a full stop stay
where they are, two full stops go up, and any name can be followed only from a directory. The text
of a path ends at its first NUL byte.

## Main definitions

* `ScriptBase.Disk.locate`: where a path leads.
* `ScriptBase.Disk.place`: a disk with something put where a path leads.
* `ScriptBase.Disk.create`: where a path leads to something that can be written; a file that does
  not exist is created, and one that exists may lose its content.
-/

namespace ScriptBase.Disk

open Ascii

/-- The number of bytes that a name may not exceed. -/
def longestName : Nat := 255

/-- The number of bytes that a path stays below. -/
def pathLimit : Nat := 4096

/-- Whether a name stays in its directory. -/
def staysHere (name : Text) : Bool := name.isEmpty || name == [dot]

/-- Whether a name goes up to the parent directory. -/
def goesUp (name : Text) : Bool := name == [dot, dot]

/-- Where one name leads from a directory. -/
def step (here : Path) (name : Text) : Path :=
  if staysHere name then here
  else if goesUp name then here.dropLast
  else here ++ [name]

/-- Follows one name from a path. -/
def follow (d : Disk) (here : Path) (name : Text) : Except SystemError Path :=
  if !d.isDirectory here then .error .notDirectory
  else if longestName < name.length then .error .nameTooLong
  else if (d.node? (step here name)).isSome then .ok (step here name)
  else .error .noEntry

/-- Follows names one after another. -/
def followAll (d : Disk) : Path → List Text → Except SystemError Path
  | here, [] => .ok here
  | here, name :: names =>
    match d.follow here name with
    | .ok there => d.followAll there names
    | .error error => .error error

/-- The path at which the text of a path starts. -/
def start (d : Disk) (path : Text) : Path :=
  if path.head? = some slash then [] else d.workingDirectory

/-- The names of a path; a path that is empty or too long has none. -/
def names (path : Text) : Except SystemError (List Text) :=
  if path.isEmpty then .error .noEntry
  else if pathLimit ≤ path.length then .error .nameTooLong
  else .ok (path.splitOn slash)

/-- Where the text of a path leads. -/
def locate (d : Disk) (path : Text) : Except SystemError Path :=
  match names path.throughNul with
  | .error error => .error error
  | .ok names => d.followAll (d.start path.throughNul) names

/-- The disk with a node at the end of a row of names from a path on, and with directories on the
way to it where nothing stands. -/
def placeFrom (n : Node) : Path → List Text → Disk → Disk
  | here, [], d => d.put here n
  | here, name :: names, d =>
    placeFrom n (step here name) names
      (if (d.node? here).isSome then d else d.put here .directory)

/-- The disk with a node where the text of a path leads, and the directories that this takes. -/
def place (d : Disk) (path : Text) (n : Node) : Disk :=
  placeFrom n (d.start path) (path.splitOn slash) d

/-- The names before the last one that is not empty, and that one; the last is missing if all names
are empty. -/
def splitLast (names : List Text) : List Text × Option Text :=
  match names.reverse.dropWhile List.isEmpty with
  | [] => ([], none)
  | last :: others => (others.reverse, some last)

/-- Where a name in a directory leads to something that can be written. A file that does not exist
is created, and one that exists keeps its content unless it is to lose it. -/
def createIn (d : Disk) (truncating : Bool) (directory : Path) (name : Text) :
    Except SystemError (Path × Disk) :=
  let p := directory ++ [name]
  if longestName < name.length then .error .nameTooLong
  else
    match d.node? p with
    | none => .ok (p, d.put p (.file []))
    | some .directory => .error .isDirectory
    | some (.file _) => .ok (p, if truncating then d.put p (.file []) else d)
    | some _ => .ok (p, d)

/-- Where the text of a path leads to something that can be written. A path that ends with a slash,
a full stop or two full stops can only be a directory. -/
def create (d : Disk) (truncating : Bool) (path : Text) : Except SystemError (Path × Disk) :=
  match names path.throughNul with
  | .error error => .error error
  | .ok names =>
    let (parents, last) := splitLast names
    match d.followAll (d.start path.throughNul) parents with
    | .error error => .error error
    | .ok directory =>
      if !d.isDirectory directory then .error .notDirectory
      else
        match last with
        | none => .error .isDirectory
        | some name =>
          if staysHere name || goesUp name || path.throughNul.getLast? = some slash then
            .error .isDirectory
          else d.createIn truncating directory name

end ScriptBase.Disk

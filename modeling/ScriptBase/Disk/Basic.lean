import ScriptBase.Dict.Basic

/-!
# Disks

A disk is a tree of directories, files and devices, kept by the paths from its root. Nothing is ever
removed or renamed, so a path stays a name of what it once led to. One directory is the working
directory, from which relative paths start.

## Main definitions

* `ScriptBase.Node`: directories, files and the two devices.
* `ScriptBase.Disk`: the nodes by their paths.
* `ScriptBase.Disk.content`: the bytes that can be read at a path.
* `ScriptBase.Disk.write`: writing bytes at a place of a file.
* `ScriptBase.Disk.workingFiles`: the files of the working directory.
-/

namespace ScriptBase

/-- The names that lead from the root of a disk to one of its nodes. -/
abbrev Path := List Text

/-- What stands at a path. -/
inductive Node where
  | file (content : Text)
  | directory
  /-- The device that takes everything and has nothing to read. -/
  | nullDevice
  /-- The device that takes nothing and has nothing to read. -/
  | fullDevice
  deriving DecidableEq, Repr

/-- A tree of directories, files and devices. -/
structure Disk where
  nodes : Dict Path Node
  /-- The directory in which relative paths start. -/
  workingDirectory : Path

namespace Disk

/-- The directory in which the devices stand. -/
def deviceDirectory : Path := [Text.ofString "dev"]

/-- The working directory of a fresh disk. -/
def homeDirectory : Path := [Text.ofString "home"]

/-- The disk with nothing on it but the devices and an empty working directory. -/
def fresh : Disk :=
  ⟨Dict.ofLast [([], .directory), (deviceDirectory, .directory),
    (deviceDirectory ++ [Text.ofString "null"], .nullDevice),
    (deviceDirectory ++ [Text.ofString "full"], .fullDevice), (homeDirectory, .directory)],
    homeDirectory⟩

/-- What stands at a path, if anything does. -/
def node? (d : Disk) (p : Path) : Option Node := d.nodes.get? p

/-- Whether a directory stands at a path. -/
def isDirectory (d : Disk) (p : Path) : Bool := d.node? p == some .directory

/-- The disk with a node put at a path. -/
def put (d : Disk) (p : Path) (n : Node) : Disk := { d with nodes := d.nodes.insert p n }

/-- The bytes that can be read at a path; only a file has any. -/
def content (d : Disk) (p : Path) : Text :=
  match d.node? p with
  | some (.file content) => content
  | _ => []

/-- A text with another written over it from an offset on; a gap before the offset is filled with
zero bytes. -/
def overwrite (content : Text) (offset : Nat) (s : Text) : Text :=
  content.take offset ++ List.replicate (offset - content.length) 0 ++ s ++
    content.drop (offset + s.length)

/-- Writes bytes at an offset of a file, at its end if no offset is given. Tells whether the bytes
were taken: a file takes them all, the null device too, and nothing else takes any. Where there are
no bytes to write, nothing changes. -/
def write (d : Disk) (p : Path) (offset : Option Nat) (s : Text) : Bool × Disk :=
  if s.isEmpty then (true, d)
  else
    match d.node? p with
    | some (.file content) =>
      (true, d.put p (.file (overwrite content (offset.getD content.length) s)))
    | some .nullDevice => (true, d)
    | _ => (false, d)

/-- The files of the working directory and the directories in it, with their paths from there. -/
def workingFiles (d : Disk) : List (Path × Text) :=
  d.nodes.entries.filterMap fun e =>
    match e.2 with
    | .file content =>
      if d.workingDirectory.isPrefixOf e.1 then
        some (e.1.drop d.workingDirectory.length, content)
      else none
    | _ => none

@[simp] theorem node?_put (d : Disk) (p q : Path) (n : Node) :
    (d.put p n).node? q = if p = q then some n else d.node? q :=
  Dict.get?_insert d.nodes p q n

theorem content_of_file {d : Disk} {p : Path} {c : Text} (h : d.node? p = some (.file c)) :
    d.content p = c := by
  rw [content, h]

/-- Writing at the end appends. -/
theorem overwrite_length (content s : Text) :
    overwrite content content.length s = content ++ s := by
  simp [overwrite]

end Disk

end ScriptBase

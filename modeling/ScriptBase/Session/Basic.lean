import ScriptBase.ClassName.Basic
import ScriptBase.Scope

/-!
# Sessions

A session runs steps on files and lines that it knows by names. A file that is made under a name in
use takes the place of the one before, which is dropped then, after the new one was made. At its end
a session drops all its files in the order of their names.

A fault that a file raises as it is dropped cannot be caught. It ends the process, and nothing that
the session was still to do is done after that.

## Main definitions

* `ScriptBase.Request`, `ScriptBase.Answer`: what can be asked of a session, and what it answers.
* `ScriptBase.Step`: a request, or steps in a block that uses a file.
* `ScriptBase.LineCursor`: a place in the lines of a file.
* `ScriptBase.Session`: the state of a session.
-/

namespace ScriptBase

/-- Which file a block uses. -/
inductive BlockFile where
  /-- The file under the name, by reference. -/
  | referenced
  /-- The file under the name, if there is one, by its owner. -/
  | owned
  /-- A file that is opened for the block and gone after it. -/
  | opened (path mode : Text)
  deriving DecidableEq, Repr

/-- What a session can be asked. The first name is that of the file. -/
inductive Request where
  | openFile (name path mode : Text)
  /-- Makes a reader on a stream of given bytes. -/
  | makeReader (name : Text) (shown : Option Text) (stream : InStream)
  /-- Makes a writer on a stream, with a capacity of its own or that of the settings. -/
  | makeWriter (name : Text) (shown : Option Text) (capacity : Option Nat) (stream : OutStream)
  | drop (name : Text)
  | readAll (name : Text)
  | readLine (name : Text)
  | readLines (name : Text)
  /-- Goes through the lines and stops after so many. -/
  | iterate (name : Text) (most : Option Nat)
  /-- Goes through the lines with their indices and stops after so many. -/
  | enumerate (name : Text) (most : Option Nat)
  | write (name s : Text)
  | print (name : Text) (vs : List Value)
  | printOut (vs : List Value)
  | flush (name : Text)
  | close (name : Text)
  | isClosed (name : Text)
  | shownName (name : Text)
  | pending (name : Text)
  | className (name : Text)
  | isInstance (name : Text) (c : Class)
  /-- What the sink behind a writer has got. -/
  | sink (name : Text)
  /-- What the stream behind a reader still holds. -/
  | rest (name : Text)
  /-- The bytes of a file on the disk. -/
  | content (path : Text)
  | beginLines (name cursor : Text)
  | nextLine (cursor : Text)
  | copyCursor (cursor target : Text)
  | cursorLine (cursor : Text)
  /-- Whether two cursors are equal; one without a name is the end. -/
  | sameCursor (cursor other : Option Text)
  | raise (fault : Fault)

/-- A step of a session. -/
inductive Step where
  | request (r : Request)
  /-- Runs steps in a block that uses a file. -/
  | block (name : Text) (file : BlockFile) (steps : List Step)

/-- What a session answers. -/
inductive Answer where
  | done
  | text (s : Text)
  | absent
  | flag (b : Bool)
  | count (n : Nat)
  | texts (ss : List Text)
  | numbered (ss : List (Nat × Text))
  | sunk (data : Text) (flushes : Nat)
  | line (s : Text) (length : Nat)
  /-- The answers of the steps of a block that succeeded, and the fault that left the block. -/
  | block (answers : List Answer) (fault : Option Fault)

/-- A place in the lines of a file: the line that was read last, none at the end. -/
structure LineCursor where
  file : Text
  line : Option Text
  deriving DecidableEq, Repr

namespace LineCursor

/-- Whether two cursors are equal: both at the end, or both at lines of one file. No cursor counts
as the end. -/
def same (a b : Option LineCursor) : Bool :=
  match a.bind line, b.bind line with
  | none, none => true
  | some _, some _ => a.map file == b.map file
  | _, _ => false

end LineCursor

/-- The state of a session. -/
structure Session where
  files : Dict Text File
  cursors : Dict Text LineCursor
  host : Host
  /-- The fault that has ended the process, if one has. -/
  ended : Option Fault

namespace Session

/-- A session on a host, without files. -/
def start (host : Host) : Session := ⟨Dict.empty, Dict.empty, host, none⟩

/-- Raises the fault that has ended the process, if one has. -/
def checkRunning : Action Session Unit := do
  match (← get).ended with
  | none => pure ()
  | some fault => throw fault

/-- The file under a name. -/
def file (name : Text) : Action Session File := do
  checkRunning
  match (← get).files.get? name with
  | some file => pure file
  | none => throw .nothingNamed

/-- The cursor under a name. -/
def cursor (name : Text) : Action Session LineCursor := do
  match (← get).cursors.get? name with
  | some cursor => pure cursor
  | none => throw .nothingNamed

/-- Runs an operation on the host. -/
def onHost {α : Type} (action : Action Host α) : Action Session α :=
  Action.on Session.host (fun host s => { s with host }) action

/-- Runs an operation on the file under a name. -/
def onFile {α : Type} (name : Text) (action : FileAction α) : Action Session α := do
  let file ← file name
  Action.on (fun s => (file, s.host))
    (fun state s => { s with files := s.files.insert name state.1, host := state.2 }) action

/-- Drops the file under a name, if there is one. A fault that it raises then ends the process. -/
def discard (name : Text) : Action Session Unit := do
  checkRunning
  match (← get).files.get? name with
  | none => pure ()
  | some file =>
    modify fun s => { s with files := s.files.erase name }
    tryCatch (onHost file.drop) fun fault => do
      modify fun s => { s with ended := some fault }
      throw fault

/-- Keeps a file under a name; the one that was there is dropped. -/
def keep (name : Text) (file : File) : Action Session Unit := do
  discard name
  modify fun s => { s with files := s.files.insert name file }

/-- Drops all files in the order of their names. -/
def finish (s : Session) : Session :=
  (Action.each discard ((s.files.entries.map Prod.fst).mergeSort (· ≤ ·)) s).2

end Session

end ScriptBase

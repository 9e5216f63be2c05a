import ScriptBase.Disk.Resolve
import ScriptBase.File.Reader
import ScriptBase.File.Writer

/-!
# Files

A file is a reader or a writer together with its stream. Every operation can be asked of every file.
One on a closed file raises a fault, and so does one of the wrong direction on an open file; neither
changes anything.

## Main definitions

* `ScriptBase.File`: files.
* `ScriptBase.FileAction`: operations on a file.
* `ScriptBase.File.readLine` and its like: the operations.
* `ScriptBase.OpenMode`, `ScriptBase.Host.openFile`: opening what stands at a path.
* `ScriptBase.File.ofInput`, `ScriptBase.Host.fileOfOutput`: files on given streams.
-/

namespace ScriptBase

/-- A reader or a writer, with its stream. -/
inductive File where
  | reader (r : Reader) (stream : InStream)
  | writer (w : Writer) (stream : OutStream)
  deriving DecidableEq, Repr

/-- An operation on a file of a host. -/
abbrev FileAction (α : Type) := Action (File × Host) α

namespace File

/-- The name under which a file was opened. -/
def name : File → Text
  | reader r _ => r.name
  | writer w _ => w.name

/-- Whether a file is closed. -/
def closed : File → Bool
  | reader r _ => r.closed
  | writer w _ => w.closed

/-- How many bytes a writer holds. -/
def pending? : File → Option Nat
  | reader _ _ => none
  | writer w _ => some w.pending.length

/-- An operation that needs a file open for reading. -/
def onReader {α : Type} (action : Reader → Disk → Action InStream α) : FileAction α := do
  let (file, host) ← get
  match file with
  | reader r stream =>
    let (result, stream) := (action r host.disk).outcome stream
    set (reader r stream, host)
    Action.ofExcept result
  | writer w _ => if w.closed then throw .closedFile else throw (.notForReading w.name)

/-- An operation that needs a file open for writing. -/
def onWriter {α : Type} (action : Action Writing α) : FileAction α := do
  let (file, host) ← get
  match file with
  | writer w stream =>
    let (result, state) := action.outcome ⟨w, stream, host⟩
    set (writer state.writer state.stream, state.host)
    Action.ofExcept result
  | reader r _ => if r.closed then throw .closedFile else throw (.notForWriting r.name)

/-- A number that the lines to be read from a file stay below: no more lines than bytes. -/
def lineBound (file : File) (d : Disk) : Nat :=
  match file with
  | reader _ stream => (stream.visible d).length + 1
  | writer _ _ => 1

/-! ### Operations -/

/-- Reads a line. -/
def readLine : FileAction (Option Text) := onReader Reader.readLine

/-- Reads lines, `n` of them at most. -/
def takeLines (n : Nat) : FileAction (List Text) := onReader fun r d => r.takeLines d n

/-- Reads all lines that are left. -/
def readLines : FileAction (List Text) := onReader Reader.readLines

/-- Reads all bytes that are left. -/
def readAll : FileAction Text := onReader Reader.readAll

/-- Writes a text. -/
def write (s : Text) : FileAction Unit := onWriter (Writing.write s)

/-- Writes the line of a list of values. -/
def print (vs : List Value) : FileAction Unit := write (printedLine vs)

/-- Flushes a writer; a reader has nothing to flush, but has to be open. -/
def flush : FileAction Unit := do
  match (← get).1 with
  | writer _ _ => onWriter Writing.flush
  | reader r _ => r.checkOpen

/-- Closes a file. -/
def close : FileAction Unit := do
  let (file, host) ← get
  match file with
  | writer _ _ => onWriter Writing.close
  | reader r stream =>
    let (result, r, host) := Reader.close.outcome (r, host)
    set (reader r stream, host)
    Action.ofExcept result

/-- Drops a file. A fault that this raises ends the process. -/
def drop : File → Action Host Unit
  | reader _ _ => pure ()
  | writer w stream => Action.on (fun host => ⟨w, stream, host⟩) (fun w _ => w.host) Writing.drop

/-! ### Outcomes -/

theorem outcome_onReader {α : Type} (action : Reader → Disk → Action InStream α) (r : Reader)
    (stream : InStream) (host : Host) :
    (onReader action).outcome (reader r stream, host) =
      (((action r host.disk).outcome stream).1,
        reader r ((action r host.disk).outcome stream).2, host) := by
  simp [onReader, Action.outcome_bind]

theorem outcome_onWriter {α : Type} (action : Action Writing α) (w : Writing) :
    (onWriter action).outcome (writer w.writer w.stream, w.host) =
      ((action.outcome w).1, writer (action.outcome w).2.writer (action.outcome w).2.stream,
        (action.outcome w).2.host) := by
  simp [onWriter, Action.outcome_bind]

/-- A writer cannot be read, and a closed one is a closed file before that. -/
theorem outcome_onReader_writer {α : Type} (action : Reader → Disk → Action InStream α)
    (w : Writer) (stream : OutStream) (host : Host) :
    (onReader action).outcome (writer w stream, host) =
      (.error (if w.closed then .closedFile else .notForReading w.name),
        writer w stream, host) := by
  cases hw : w.closed <;> simp [onReader, Action.outcome_bind, hw]

/-- Reading closes no file and opens none. -/
theorem closed_onReader {α : Type} (action : Reader → Disk → Action InStream α) (file : File)
    (host : Host) : ((onReader action).outcome (file, host)).2.1.closed = file.closed := by
  cases file with
  | reader r stream =>
    rw [outcome_onReader]
    rfl
  | writer w stream => rw [outcome_onReader_writer]

/-- A reader cannot be written to, and a closed one is a closed file before that. -/
theorem outcome_onWriter_reader {α : Type} (action : Action Writing α) (r : Reader)
    (stream : InStream) (host : Host) :
    (onWriter action).outcome (reader r stream, host) =
      (.error (if r.closed then .closedFile else .notForWriting r.name),
        reader r stream, host) := by
  cases hr : r.closed <;> simp [onWriter, Action.outcome_bind, hr]

theorem outcome_flush_reader (r : Reader) (stream : InStream) (host : Host) :
    flush.outcome (reader r stream, host) =
      (if r.closed then .error .closedFile else .ok (), reader r stream, host) := by
  simp [flush, Action.outcome_bind]

theorem outcome_close_reader (r : Reader) (stream : InStream) (host : Host) :
    close.outcome (reader r stream, host) =
      ((Reader.close.outcome (r, host)).1, reader (Reader.close.outcome (r, host)).2.1 stream,
        (Reader.close.outcome (r, host)).2.2) := by
  simp [close, Action.outcome_bind]

/-! ### Making files -/

/-- The name of a file on a stream for which no name is given. -/
def streamName : Text := "<stream>"

/-- A reader on a stream. -/
def ofInput (name : Text) (stream : InStream) : File := reader (.opened name) stream

/-- A writer on a stream. -/
def ofOutput (name : Text) (capacity : Nat) (stream : OutStream) : File :=
  writer (.opened name capacity) stream

end File

/-- What a file is opened for. -/
inductive OpenMode where
  | read
  | write
  | append
  deriving DecidableEq, Repr

namespace OpenMode

/-- The mode that a letter stands for. -/
def ofLetter? (b : UInt8) : Option OpenMode :=
  if b = 0x72 then some read
  else if b = 0x77 then some write
  else if b = 0x61 then some append
  else none

/-- The mode of a text: one of the letters `r`, `w` and `a`, possibly with `t` or `b` behind it. -/
def ofText? : Text → Option OpenMode
  | [b] => ofLetter? b
  | [b, c] => if c = 0x74 || c = 0x62 then ofLetter? b else none
  | _ => none

/-- The text of the mode that files are opened in if none is given. -/
def default : Text := "r"

end OpenMode

namespace Host

/-- Opens what stands at a path for reading. -/
def openReader (path : Text) : Action Host File := do
  match (← get).disk.locate path with
  | .error error => throw (.cannotOpen error path)
  | .ok p =>
    trace (.opened path .reading)
    pure (.ofInput path (.ofPath p))

/-- Opens what stands at a path for writing, or creates a file there. The file loses its content
unless writing goes on at its end; this comes before the settings are looked at. -/
def openWriter (path : Text) (appending : Bool) : Action Host File := do
  match (← get).disk.create (!appending) path with
  | .error error => throw (.cannotOpen error path)
  | .ok (p, disk) =>
    modify fun host => { host with disk }
    trace (.opened path (if appending then .appending else .writing))
    let capacity ← bufferSize
    pure (.ofOutput path capacity (.toPath p appending))

/-- Opens a file in a mode. -/
def openFile (path mode : Text) : Action Host File :=
  match OpenMode.ofText? mode with
  | none => throw (.invalidMode mode)
  | some .read => openReader path
  | some .write => openWriter path false
  | some .append => openWriter path true

/-- A writer on a stream, with the buffer size of the settings. -/
def fileOfOutput (name : Text) (stream : OutStream) : Action Host File := do
  let capacity ← bufferSize
  pure (.ofOutput name capacity stream)

/-! ### Outcomes -/

theorem outcome_openReader (path : Text) (host : Host) :
    (openReader path).outcome host =
      match host.disk.locate path with
      | .error error => (.error (.cannotOpen error path), host)
      | .ok p =>
        (host.environment.settings.map fun _ => .ofInput path (.ofPath p),
          ((trace (.opened path .reading)).outcome host).2) := by
  simp only [openReader, Action.outcome_bind, Action.outcome_get]
  rcases host.disk.locate path with error | p
  · rfl
  · simp only [Action.outcome_bind, outcome_trace]
    cases host.environment.settings <;> rfl

/-- What opening for writing does to the disk stays done if the settings are malformed. -/
theorem outcome_openWriter (path : Text) (appending : Bool) (host : Host) :
    (openWriter path appending).outcome host =
      match host.disk.create (!appending) path with
      | .error error => (.error (.cannotOpen error path), host)
      | .ok (p, disk) =>
        (host.environment.settings.map fun settings =>
            .ofOutput path settings.bufferSize (.toPath p appending),
          ((trace (.opened path (if appending then .appending else .writing))).outcome
            { host with disk }).2) := by
  simp only [openWriter, Action.outcome_bind, Action.outcome_get]
  rcases host.disk.create (!appending) path with error | ⟨p, disk⟩
  · rfl
  · simp only [Action.outcome_bind, Action.outcome_modify, outcome_trace]
    cases hs : host.environment.settings with
    | error fault => rfl
    | ok settings =>
      rcases settings with ⟨_ | _, size⟩ <;> simp [outcome_bufferSize, hs, Except.map]

end Host

end ScriptBase

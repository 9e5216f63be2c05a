import ScriptBase.Sequence
import ScriptBase.Session.Basic

/-!
# Running the steps of a session

## Main definitions

* `ScriptBase.Session.serve`: answers a request.
* `ScriptBase.Session.perform`: runs a step.
* `ScriptBase.Session.performBlock`: runs the steps of a block up to the first that raises a fault.
* `ScriptBase.Session.performAll`: runs steps, whatever they raise, while the process runs.
-/

namespace ScriptBase.Session

/-- A session with the answers of the steps of a block that succeeded. -/
structure BlockState where
  session : Session
  answers : List Answer

/-- Runs an operation on the session while a block runs. -/
def inBlock {α : Type} (action : Action Session α) : Action BlockState α :=
  Action.on BlockState.session (fun session s => { s with session }) action

/-- The number of lines after which going through a file stops. One line has been read before the
first look at the number. -/
def lineLimit (bound : Nat) : Option Nat → Nat
  | none => bound
  | some most => max most 1

/-- Goes through the lines of a file and stops after so many. -/
def goThrough (name : Text) (most : Option Nat) : Action Session (List Text) := do
  let s ← get
  let file ← file name
  onFile name (File.takeLines (lineLimit (file.lineBound s.host.disk) most))

/-- Reads the next line into a cursor. -/
def advance (cursorName : Text) : Action Session Unit := do
  let c ← cursor cursorName
  let line ← onFile c.file File.readLine
  modify fun s => { s with cursors := s.cursors.insert cursorName { c with line } }

/-- The bytes of what stands at a path, if it can be opened. -/
def contentAt (d : Disk) (path : Text) : Answer :=
  match d.locate path with
  | .error _ => .absent
  | .ok p => .text (d.content p)

/-- Answers a request. -/
def serve : Request → Action Session Answer
  | .openFile name path mode => do
    let file ← onHost (Host.openFile path mode)
    keep name file
    pure .done
  | .makeReader name shown stream => do
    keep name (.ofInput (shown.getD File.streamName) stream)
    pure .done
  | .makeWriter name shown capacity stream => do
    let shown := shown.getD File.streamName
    let file ← match capacity with
      | some capacity => pure (File.ofOutput shown capacity stream)
      | none => onHost (Host.fileOfOutput shown stream)
    keep name file
    pure .done
  | .drop name => do
    let _ ← file name
    discard name
    pure .done
  | .readAll name => do
    let s ← onFile name File.readAll
    pure (.text s)
  | .readLine name => do
    match ← onFile name File.readLine with
    | some line => pure (.text line)
    | none => pure .absent
  | .readLines name => do
    let lines ← onFile name File.readLines
    pure (.texts lines)
  | .iterate name most => do
    let lines ← goThrough name most
    pure (.texts lines)
  | .enumerate name most => do
    let lines ← goThrough name most
    pure (.numbered (Sequence.enumerate lines))
  | .write name s => do
    onFile name (File.write s)
    pure .done
  | .print name vs => do
    onFile name (File.print vs)
    pure .done
  | .printOut vs => do
    onHost (Host.print vs)
    pure .done
  | .flush name => do
    onFile name File.flush
    pure .done
  | .close name => do
    onFile name File.close
    pure .done
  | .isClosed name => do
    let file ← file name
    pure (.flag file.closed)
  | .shownName name => do
    let file ← file name
    pure (.text file.name)
  | .pending name => do
    match (← file name).pending? with
    | some n => pure (.count n)
    | none => pure .absent
  | .className name => do
    let shown ← Action.ofExcept (ClassNames.initial.name (Class.ofFile (← file name)))
    pure (.text shown)
  | .isInstance name c => do
    let file ← file name
    pure (.flag ((Class.ofFile file).isA c))
  | .sink name => do
    match ← file name with
    | .writer _ stream => pure (.sunk stream.received stream.flushes)
    | .reader _ _ => throw .nothingNamed
  | .rest name => do
    match ← file name with
    | .reader _ stream => pure (.text stream.held)
    | .writer _ _ => throw .nothingNamed
  | .content path => do
    let s ← get
    pure (contentAt s.host.disk path)
  | .beginLines name cursor => do
    let line ← onFile name File.readLine
    modify fun s => { s with cursors := s.cursors.insert cursor ⟨name, line⟩ }
    pure .done
  | .nextLine cursor => do
    advance cursor
    pure .done
  | .copyCursor name target => do
    let c ← cursor name
    modify fun s => { s with cursors := s.cursors.insert target c }
    pure .done
  | .cursorLine name => do
    match (← cursor name).line with
    | some line => pure (.line line line.length)
    | none => pure .absent
  | .sameCursor name other => do
    let a ← name.mapM cursor
    let b ← other.mapM cursor
    pure (.flag (LineCursor.same a b))
  | .raise fault => throw fault

/-- Runs a block on a file and closes the file after it; a file that was opened for the block is
dropped then. -/
def guarded (name : Text) (file : BlockFile) (block : Action BlockState Unit) :
    Action BlockState Unit :=
  let close := inBlock (onFile name File.close)
  match file with
  | .referenced => withClosing block close
  | .owned => do
    let present := (← get).session.files.get? name
    withOwned present (fun _ => block) fun _ => close
  | .opened path mode => do
    let file ← inBlock (onHost (Host.openFile path mode))
    inBlock (keep name file)
    withClosing (withClosing block close) (inBlock (discard name))

/-- What becomes of a block that has ended: the answers of the steps that have succeeded, with the
fault that has left the block. A fault that has ended the process leaves every block. -/
def BlockState.answer (state : BlockState) (result : Except Fault Unit) : Except Fault Answer :=
  match state.session.ended, result with
  | some fault, _ => .error fault
  | none, .ok _ => .ok (.block state.answers none)
  | none, .error fault => .ok (.block state.answers (some fault))

/-- Runs a block on a file and answers what has become of it. -/
def useFile (name : Text) (file : BlockFile) (block : Action BlockState Unit) :
    Action Session Answer :=
  ExceptT.mk fun s =>
    let (result, state) := (guarded name file block).outcome ⟨s, []⟩
    (state.answer result, state.session)

mutual

/-- Runs a step. -/
def perform : Step → Action Session Answer
  | .request r => serve r
  | .block name file steps => useFile name file (performBlock steps)

/-- Runs the steps of a block up to the first that raises a fault, which is raised again. -/
def performBlock : List Step → Action BlockState Unit
  | [] => pure ()
  | step :: steps => do
    let answer ← inBlock (perform step)
    modify fun s => { s with answers := s.answers ++ [answer] }
    performBlock steps

end

/-- The outcomes of steps one after another, and the session after them. A step at which the process
ends has no outcome, and no step is run after it. -/
def performAll : List Step → Session → List (Except Fault Answer) × Session
  | [], s => ([], s)
  | step :: steps, s =>
    let (result, s) := (perform step).outcome s
    if s.ended.isSome then ([], s)
    else
      let (results, s) := performAll steps s
      (result :: results, s)

end ScriptBase.Session

import ScriptBase.Host

/-!
# Writers

A writer hands texts on to an output stream. It holds bytes back until it is flushed or closed, or
until they are as many as it may hold. The stream is not a part of the writer: several writers may
write to one.

A writer that is closed holds nothing, also if its bytes could not be handed on. A writer that is
dropped without being closed hands on what it holds as well as it can, and tells nobody but the
traces if it cannot. No fault may come out of that: one of that trace ends the process.

## Main definitions

* `ScriptBase.Writer`: writers.
* `ScriptBase.Writing`: a writer with its stream and its host.
* `ScriptBase.Writing.write`, `ScriptBase.Writing.print`, `ScriptBase.Writing.flush`,
  `ScriptBase.Writing.close`, `ScriptBase.Writing.drop`: the operations.
-/

namespace ScriptBase

/-- A file that is open for writing, or was. -/
structure Writer where
  name : Text
  closed : Bool
  /-- How many bytes the writer holds before it hands them on; zero for no limit. -/
  capacity : Nat
  /-- The bytes that are held. -/
  pending : Text
  deriving DecidableEq, Repr

/-- A writer that has just been opened. -/
def Writer.opened (name : Text) (capacity : Nat) : Writer := ⟨name, false, capacity, []⟩

/-- A writer with the stream that it writes to and the host that it runs on. -/
structure Writing where
  writer : Writer
  stream : OutStream
  host : Host

namespace Writing

/-- A writing with another stream and disk. -/
def withStream (w : Writing) (s : OutStream × Disk) : Writing :=
  { w with stream := s.1, host := { w.host with disk := s.2 } }

/-- A writing whose writer holds other bytes. -/
def withPending (w : Writing) (s : Text) : Writing :=
  { w with writer := { w.writer with pending := s } }

/-- Raises a fault if the writer is closed. -/
def checkOpen : Action Writing Unit := do
  if (← get).writer.closed then throw .closedFile

/-- Traces an event on the host. -/
def trace (e : Event) : Action Writing Unit :=
  Action.on Writing.host (fun host w => { w with host }) (Host.trace e)

/-- Writes bytes to the stream, past what the writer holds. -/
def deliver (bytes : Text) : Action Writing Unit :=
  modify fun w => w.withStream (w.stream.write w.host.disk bytes)

/-- Flushes the stream. -/
def flushStream : Action Writing Unit :=
  modify fun w => w.withStream (w.stream.flush w.host.disk)

/-- Closes the stream if it leads to a file. -/
def closeStream : Action Writing Unit :=
  modify fun w => w.withStream (w.stream.close w.host.disk)

/-- Hands on what the writer holds. If that fails the writer goes on holding it. -/
def spill : Action Writing Unit := do
  let w ← get
  if w.writer.pending.isEmpty then pure ()
  else
    deliver w.writer.pending
    if !(← get).stream.good then throw (.writeFailed w.writer.name)
    modify fun w => w.withPending []

/-- Writes a text. -/
def write (s : Text) : Action Writing Unit := do
  checkOpen
  modify fun w => w.withPending (w.writer.pending ++ s)
  let w ← get
  if w.writer.capacity ≠ 0 ∧ w.writer.capacity ≤ w.writer.pending.length then
    trace (.spilled w.writer.pending.length w.writer.name)
    spill

/-- Writes the line of a list of values. -/
def print (vs : List Value) : Action Writing Unit := write (printedLine vs)

/-- Hands on what the writer holds and flushes the stream. -/
def flush : Action Writing Unit := do
  checkOpen
  spill
  flushStream
  let w ← get
  if !w.stream.good then throw (.flushFailed w.writer.name)

/-- Marks the writer as closed, with nothing held, and closes its stream if that leads to a file,
which is a fault of its own if that stream has failed. -/
def release : Action Writing Unit := do
  modify fun w => { w with writer := { w.writer with closed := true, pending := [] } }
  closeStream
  let w ← get
  if w.stream.fileFailed then throw (.closeFailed w.writer.name)

/-- Closes the writer after a last flush; one that is closed stays as it is. The writer is closed
also if the flush fails. -/
def close : Action Writing Unit := do
  if (← get).writer.closed then pure ()
  else
    tryCatch flush fun fault => do
      if fault.isIO then release
      throw fault
    release
    trace (.writerClosed (← get).writer.name)

/-- Hands on what an open writer holds, as its end comes without its being closed. -/
def handOver : Action Writing Unit := do
  let w ← get
  if w.writer.closed || w.writer.pending.isEmpty then pure ()
  else
    deliver w.writer.pending
    flushStream
    if !(← get).stream.good then trace (.lost w.writer.pending.length w.writer.name)

/-- Drops the writer. A stream to a file ends with it. A fault that this raises leaves the writer
half dropped, and ends the process. -/
def drop : Action Writing Unit := do
  handOver
  if (← get).writer.closed then pure () else closeStream

/-- What a writer leaves when it is dropped, or when the process ends with that. -/
def dropped (w : Writing) : Writing := (drop.outcome w).2

/-! ### Outcomes -/

@[simp] theorem outcome_deliver (bytes : Text) (w : Writing) :
    (deliver bytes).outcome w = (.ok (), w.withStream (w.stream.write w.host.disk bytes)) := rfl

@[simp] theorem outcome_flushStream (w : Writing) :
    flushStream.outcome w = (.ok (), w.withStream (w.stream.flush w.host.disk)) := rfl

@[simp] theorem outcome_closeStream (w : Writing) :
    closeStream.outcome w = (.ok (), w.withStream (w.stream.close w.host.disk)) := rfl

@[simp] theorem outcome_checkOpen (w : Writing) :
    checkOpen.outcome w = (if w.writer.closed then .error .closedFile else .ok (), w) := by
  cases h : w.writer.closed <;> simp [checkOpen, Action.outcome_bind, h]

/-- Bytes that cannot be handed on are held on to. -/
theorem outcome_spill (w : Writing) :
    spill.outcome w =
      if w.writer.pending = [] then (.ok (), w)
      else
        let w' := w.withStream (w.stream.write w.host.disk w.writer.pending)
        if w'.stream.failed then (.error (.writeFailed w.writer.name), w')
        else (.ok (), w'.withPending []) := by
  by_cases hp : w.writer.pending = []
  · simp [spill, Action.outcome_bind, hp]
  · by_cases hf : (w.stream.write w.host.disk w.writer.pending).1.failed <;>
      simp [spill, Action.outcome_bind, hp, OutStream.good, withStream, hf]

/-- A text is held before anything can fail. -/
theorem outcome_write (s : Text) (w : Writing) :
    (write s).outcome w =
      if w.writer.closed then (.error .closedFile, w)
      else
        let w' := w.withPending (w.writer.pending ++ s)
        if w.writer.capacity ≠ 0 ∧ w.writer.capacity ≤ w'.writer.pending.length then
          (do trace (.spilled w'.writer.pending.length w.writer.name); spill).outcome w'
        else (.ok (), w') := by
  cases hc : w.writer.closed with
  | true => simp [write, Action.outcome_bind, hc]
  | false =>
    simp only [write, Action.outcome_bind, outcome_checkOpen, hc, Action.outcome_modify,
      Action.outcome_get, Action.outcome_ite]
    rfl

/-- A flush hands on what is held before the stream is flushed. -/
theorem outcome_flush (w : Writing) :
    flush.outcome w =
      if w.writer.closed then (.error .closedFile, w)
      else
        match spill.outcome w with
        | (.error fault, w') => (.error fault, w')
        | (.ok _, w') =>
          let w'' := w'.withStream (w'.stream.flush w'.host.disk)
          (if w''.stream.failed then .error (.flushFailed w''.writer.name) else .ok (), w'') := by
  cases hc : w.writer.closed with
  | true => simp [flush, Action.outcome_bind, hc]
  | false =>
    simp only [flush, Action.outcome_bind, outcome_checkOpen, hc, Bool.false_eq_true, if_false]
    rcases spill.outcome w with ⟨_ | _, w'⟩
    · rfl
    · cases hf : (w'.withStream (w'.stream.flush w'.host.disk)).stream.failed <;>
        simp [OutStream.good, hf]

/-- Releasing a writer closes it and empties it, whatever becomes of its stream. -/
theorem outcome_release (w : Writing) :
    release.outcome w =
      let w' := { w with writer := { w.writer with closed := true, pending := [] } }
      let w'' := w'.withStream (w'.stream.close w'.host.disk)
      (if w''.stream.fileFailed then .error (.closeFailed w''.writer.name) else .ok (), w'') := by
  simp only [release, Action.outcome_bind, Action.outcome_modify, outcome_closeStream,
    Action.outcome_get, Action.outcome_ite]
  split <;> rfl

/-- What is handed over as a writer ends is flushed, and only a trace tells if that fails. -/
theorem outcome_handOver (w : Writing) :
    handOver.outcome w =
      if w.writer.closed ∨ w.writer.pending = [] then (.ok (), w)
      else
        let w' := w.withStream (w.stream.write w.host.disk w.writer.pending)
        let w'' := w'.withStream (w'.stream.flush w'.host.disk)
        if w''.stream.failed then
          (trace (.lost w.writer.pending.length w.writer.name)).outcome w''
        else (.ok (), w'') := by
  by_cases h : w.writer.closed = true ∨ w.writer.pending = []
  · simp [handOver, Action.outcome_bind, h]
  · simp only [handOver, Action.outcome_bind, Action.outcome_get, Action.outcome_ite,
      outcome_deliver, outcome_flushStream, Bool.or_eq_true, List.isEmpty_iff, h, if_false]
    simp only [OutStream.good, Bool.not_not]
    rfl

/-- The stream of a writer that is dropped ends behind what is handed over, unless a fault ends the
process before that. -/
theorem outcome_drop (w : Writing) :
    drop.outcome w =
      match handOver.outcome w with
      | (.error fault, w') => (.error fault, w')
      | (.ok _, w') =>
        (.ok (), if w'.writer.closed then w' else w'.withStream (w'.stream.close w'.host.disk)) := by
  rw [drop, Action.outcome_bind]
  rcases handOver.outcome w with ⟨fault | _, w'⟩
  · rfl
  · cases hc : w'.writer.closed <;> simp [Action.outcome_bind, hc]

end Writing

end ScriptBase

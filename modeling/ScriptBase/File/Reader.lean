import ScriptBase.Host
import ScriptBase.Stream.Input

/-!
# Readers

A reader reads lines from an input stream. The stream is not a part of the reader: several readers
may read from one, and closing a reader leaves it as it is.

## Main definitions

* `ScriptBase.Reader`: readers.
* `ScriptBase.Reader.readLine`, `ScriptBase.Reader.takeLines`, `ScriptBase.Reader.readLines`,
  `ScriptBase.Reader.readAll`: reading.
* `ScriptBase.Reader.close`: closing.
-/

namespace ScriptBase

/-- A file that is open for reading, or was. -/
structure Reader where
  name : Text
  closed : Bool
  deriving DecidableEq, Repr

namespace Reader

/-- A reader that has just been opened. -/
def opened (name : Text) : Reader := ⟨name, false⟩

/-- Raises a fault if the reader is closed. -/
def checkOpen {σ : Type} (r : Reader) : Action σ Unit :=
  if r.closed then throw .closedFile else pure ()

/-- Reads a line without its newline and the carriage return before that; there is none at the end
of the input. -/
def readLine (r : Reader) (d : Disk) : Action InStream (Option Text) := do
  r.checkOpen
  let (line, stream) := (← get).getLine d
  set stream
  match line with
  | some line => pure (some line.dropReturn)
  | none => if stream.failed then throw (.readFailed r.name) else pure none

/-- Reads lines, `n` of them at most. -/
def takeLines (r : Reader) (d : Disk) : Nat → Action InStream (List Text)
  | 0 => pure []
  | n + 1 => do
    match ← r.readLine d with
    | none => pure []
    | some line =>
      let lines ← r.takeLines d n
      pure (line :: lines)

/-- Reads all lines that are left. There are no more lines than bytes, and one more attempt finds
the end. -/
def readLines (r : Reader) (d : Disk) : Action InStream (List Text) := do
  r.takeLines d (((← get).visible d).length + 1)

/-- Reads all bytes that are left. -/
def readAll (r : Reader) (d : Disk) : Action InStream Text := do
  r.checkOpen
  let (bytes, stream) := (← get).getAll d
  set stream
  if stream.failed then throw (.readFailed r.name) else pure bytes

/-- Closes a reader; one that is closed stays as it is. -/
def close : Action (Reader × Host) Unit := do
  let (r, host) ← get
  if r.closed then pure ()
  else
    set ({ r with closed := true }, host)
    Action.on Prod.snd (fun host state => (state.1, host)) (Host.trace (.readerClosed r.name))

/-! ### Outcomes -/

variable {r : Reader}

@[simp] theorem outcome_checkOpen {σ : Type} (r : Reader) (s : σ) :
    (r.checkOpen : Action σ Unit).outcome s =
      (if r.closed then .error .closedFile else .ok (), s) := by
  cases h : r.closed <;> simp [checkOpen, h]

/-- An open reader takes the line that its stream gives, and blames a failure of the stream if there
is none. -/
theorem outcome_readLine (hr : r.closed = false) (d : Disk) (s : InStream) :
    (r.readLine d).outcome s =
      (match (s.getLine d).1 with
        | some line => .ok (some line.dropReturn)
        | none => if (s.getLine d).2.failed then .error (.readFailed r.name) else .ok none,
        (s.getLine d).2) := by
  simp only [readLine, Action.outcome_bind, outcome_checkOpen, hr, Action.outcome_get,
    Action.outcome_set, Bool.false_eq_true, if_false]
  rcases s.getLine d with ⟨_ | line, s'⟩
  · cases s'.failed <;> rfl
  · rfl

/-- Lines are read one after another until there is none or one cannot be read. -/
theorem outcome_takeLines_succ (r : Reader) (d : Disk) (n : Nat) (s : InStream) :
    (r.takeLines d (n + 1)).outcome s =
      match (r.readLine d).outcome s with
      | (.error fault, s') => (.error fault, s')
      | (.ok none, s') => (.ok [], s')
      | (.ok (some line), s') =>
        (((r.takeLines d n).outcome s').1.map (line :: ·), ((r.takeLines d n).outcome s').2) := by
  simp only [takeLines, Action.outcome_bind]
  rcases (r.readLine d).outcome s with ⟨fault | _ | line, s'⟩
  · rfl
  · rfl
  · simp only [Action.outcome_bind]
    rcases (r.takeLines d n).outcome s' with ⟨_ | _, s''⟩ <;> rfl

theorem outcome_readLines (r : Reader) (d : Disk) (s : InStream) :
    (r.readLines d).outcome s = (r.takeLines d ((s.visible d).length + 1)).outcome s := rfl

theorem outcome_readAll (hr : r.closed = false) (d : Disk) (s : InStream) :
    (r.readAll d).outcome s =
      (if (s.getAll d).2.failed then .error (.readFailed r.name) else .ok (s.getAll d).1,
        (s.getAll d).2) := by
  simp only [readAll, Action.outcome_bind, outcome_checkOpen, hr, Action.outcome_get,
    Action.outcome_set, Bool.false_eq_true, if_false]
  cases (s.getAll d).2.failed <;> rfl

/-! ### Closed readers -/

theorem outcome_readLine_of_closed (hr : r.closed = true) (d : Disk) (s : InStream) :
    (r.readLine d).outcome s = (.error .closedFile, s) := by
  simp [readLine, Action.outcome_bind, hr]

theorem outcome_takeLines_succ_of_closed (hr : r.closed = true) (d : Disk) (n : Nat)
    (s : InStream) : (r.takeLines d (n + 1)).outcome s = (.error .closedFile, s) := by
  rw [outcome_takeLines_succ, outcome_readLine_of_closed hr]

theorem outcome_readLines_of_closed (hr : r.closed = true) (d : Disk) (s : InStream) :
    (r.readLines d).outcome s = (.error .closedFile, s) :=
  outcome_takeLines_succ_of_closed hr d _ s

theorem outcome_readAll_of_closed (hr : r.closed = true) (d : Disk) (s : InStream) :
    (r.readAll d).outcome s = (.error .closedFile, s) := by
  simp [readAll, Action.outcome_bind, hr]

/-- Closing marks a reader as closed before the trace, which needs well-formed settings. -/
theorem outcome_close (r : Reader) (host : Host) :
    close.outcome (r, host) =
      if r.closed then (.ok (), r, host)
      else (((Host.trace (.readerClosed r.name)).outcome host).1, { r with closed := true },
        ((Host.trace (.readerClosed r.name)).outcome host).2) := by
  cases hr : r.closed <;> simp [close, Action.outcome_bind, hr]

end Reader

end ScriptBase

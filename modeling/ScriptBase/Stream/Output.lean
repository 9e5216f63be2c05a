import ScriptBase.Disk.Basic

/-!
# Output streams

An output stream hands bytes on to its target: a sink that keeps what it gets and may have only so
much room, or a file. A write that goes past the room delivers the bytes that still fit and fails. A
stream that has failed stays so, and ignores later writes and flushes. On the way to a file, bytes
are held back until they are flushed or no more fit.

## Main definitions

* `ScriptBase.Sink`, `ScriptBase.FileTarget`, `ScriptBase.OutStream`: targets and streams.
* `ScriptBase.OutStream.write`, `ScriptBase.OutStream.flush`, `ScriptBase.OutStream.close`.
-/

namespace ScriptBase

/-- A target that keeps what it gets. -/
structure Sink where
  /-- What it has got. -/
  data : Text
  /-- How many more bytes it takes, if there is a limit. -/
  room : Option Nat
  /-- How often it was flushed. -/
  flushes : Nat
  /-- Whether it fails when it is flushed. -/
  failsFlush : Bool
  deriving DecidableEq, Repr

namespace Sink

/-- A sink without bytes. -/
def empty (room : Option Nat) (failsFlush : Bool) : Sink := ⟨[], room, 0, failsFlush⟩

/-- How many of `n` bytes there is room for. -/
def fitting (k : Sink) (n : Nat) : Nat :=
  match k.room with
  | none => n
  | some room => min room n

/-- Takes the bytes that there is room for, and tells whether these are all. -/
def write (k : Sink) (s : Text) : Bool × Sink :=
  let n := k.fitting s.length
  (n == s.length, { k with data := k.data ++ s.take n, room := k.room.map (· - n) })

/-- Counts a flush, and tells whether it was done. -/
def flush (k : Sink) : Bool × Sink := (!k.failsFlush, { k with flushes := k.flushes + 1 })

end Sink

/-- A file as a target, with the bytes that are held back from it. -/
structure FileTarget where
  path : Path
  /-- The offset of the next byte; without one, bytes go to the end of the file. -/
  offset : Option Nat
  held : Text
  deriving DecidableEq, Repr

namespace FileTarget

/-- The number of bytes that can be held back. -/
def capacity : Nat := 8191

/-- A file that is written from its start, or at its end. -/
def start (path : Path) (appending : Bool) : FileTarget :=
  ⟨path, if appending then none else some 0, []⟩

/-- Writes the bytes that are held back and then `s` to the file, and tells whether it took them. -/
def deliver (t : FileTarget) (d : Disk) (s : Text) : Bool × FileTarget × Disk :=
  let all := t.held ++ s
  let (taken, d) := d.write t.path t.offset all
  if taken then (true, { t with offset := t.offset.map (· + all.length), held := [] }, d)
  else (false, t, d)

/-- Holds bytes back, or delivers them if they fill the room for that. -/
def write (t : FileTarget) (d : Disk) (s : Text) : Bool × FileTarget × Disk :=
  if s.length < capacity - t.held.length then (true, { t with held := t.held ++ s }, d)
  else t.deliver d s

end FileTarget

/-- What an output stream hands its bytes to. -/
inductive Target where
  | sink (k : Sink)
  | file (t : FileTarget)
  deriving DecidableEq, Repr

/-- A stream that bytes are written to. -/
structure OutStream where
  target : Target
  /-- Whether a write or a flush has failed. -/
  failed : Bool
  deriving DecidableEq, Repr

namespace OutStream

/-- The stream to a sink that has got nothing. -/
def toSink (room : Option Nat) (failsFlush : Bool) : OutStream :=
  ⟨.sink (.empty room failsFlush), false⟩

/-- The stream to a file. -/
def toPath (path : Path) (appending : Bool) : OutStream := ⟨.file (.start path appending), false⟩

/-- Whether the stream has not failed. -/
def good (s : OutStream) : Bool := !s.failed

/-- Writes bytes. -/
def write (s : OutStream) (d : Disk) (bytes : Text) : OutStream × Disk :=
  if s.failed then (s, d)
  else
    match s.target with
    | .sink k =>
      let (done, k) := k.write bytes
      (⟨.sink k, !done⟩, d)
    | .file t =>
      let (done, t, d) := t.write d bytes
      (⟨.file t, !done⟩, d)

/-- Flushes what was written. -/
def flush (s : OutStream) (d : Disk) : OutStream × Disk :=
  if s.failed then (s, d)
  else
    match s.target with
    | .sink k =>
      let (done, k) := k.flush
      (⟨.sink k, !done⟩, d)
    | .file t =>
      let (done, t, d) := t.deliver d []
      (⟨.file t, !done⟩, d)

/-- Closes the stream to a file: what is still held back is delivered. A sink needs no closing. -/
def close (s : OutStream) (d : Disk) : OutStream × Disk :=
  match s.target with
  | .sink _ => (s, d)
  | .file t =>
    let (done, t, d) := t.deliver d []
    (⟨.file t, s.failed || !done⟩, d)

/-- Whether the stream to a file has failed. -/
def fileFailed (s : OutStream) : Bool :=
  match s.target with
  | .sink _ => false
  | .file _ => s.failed

/-- What the sink of a stream has got. -/
def received (s : OutStream) : Text :=
  match s.target with
  | .sink k => k.data
  | .file _ => []

/-- How often the sink of a stream was flushed. -/
def flushes (s : OutStream) : Nat :=
  match s.target with
  | .sink k => k.flushes
  | .file _ => 0

/-- A sink keeps what it has and gets the bytes that there is room for. -/
theorem data_write_sink (k : Sink) (s : Text) :
    (k.write s).2.data = k.data ++ s.take (k.fitting s.length) := rfl

/-- A stream that has failed ignores writes. -/
theorem write_of_failed {s : OutStream} (h : s.failed = true) (d : Disk) (bytes : Text) :
    s.write d bytes = (s, d) := by
  simp [write, h]

/-- A stream that has failed ignores flushes. -/
theorem flush_of_failed {s : OutStream} (h : s.failed = true) (d : Disk) : s.flush d = (s, d) := by
  simp [flush, h]

/-- A stream that is flushed and has not failed had not failed before. -/
theorem good_of_good_flush {s : OutStream} {d : Disk} (h : (s.flush d).1.failed = false) :
    s.failed = false := by
  cases hf : s.failed with
  | true =>
    rw [flush_of_failed hf] at h
    exact hf.symm.trans h
  | false => rfl

/-- A stream that is closed and has not failed had not failed before. -/
theorem good_of_good_close {s : OutStream} {d : Disk} (h : (s.close d).1.failed = false) :
    s.failed = false := by
  rcases s with ⟨_ | _, failed⟩
  · exact h
  · exact (Bool.or_eq_false_iff.1 h).1

/-- A good stream that is closed has failed only if it is a stream to a file that tells so. -/
theorem good_close_of_good {s : OutStream} {d : Disk} (h : s.failed = false)
    (hf : (s.close d).1.fileFailed = false) : (s.close d).1.failed = false := by
  rcases s with ⟨_ | _, failed⟩
  · exact h
  · exact hf

end OutStream

end ScriptBase

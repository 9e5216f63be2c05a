import Mathlib.Logic.Relation
import ScriptBase.Proofs.Writer.Calls

/-!
# The life of a file

A file is open when it is made, and closing it is the only thing that closes it. That is for good,
and a closed file holds nothing, whatever closing it has raised. Closing it again does nothing, and
every other call is rejected. An open file rejects the calls of the other direction: a reader those
that write, and a writer those that read. A call that is rejected leaves the file, its stream and
the host as they were.

All this holds in every state that a file can get into, by calls on it and by what becomes of its
stream and its host in the meantime.

## Main definitions

* `ScriptBase.FileCall`: what can be asked of a file.
* `ScriptBase.FileCall.misdirected`: the calls of the wrong direction.
* `ScriptBase.FileCall.RejectedAt`: a call is rejected.
* `ScriptBase.File.Step`, `ScriptBase.File.Reachable`: what can happen to a file, and the states
  that it can get into.

## Main results

* `ScriptBase.File.closed_of_later`: a file that is closed stays so.
* `ScriptBase.File.Reachable.pending?_of_closed`: a file that is closed holds nothing.
* `ScriptBase.File.Reachable.lifecycle`: what closing does, and the calls that are rejected.
-/

namespace ScriptBase

/-! ### Calls on files -/

/-- Whether a call writes a text. -/
def WriterCall.writes : WriterCall → Bool
  | write _ | print _ => true
  | flush | close => false

/-- What can be asked of a file. -/
inductive FileCall where
  | readLine
  /-- Goes through the lines and stops at the one after so many. -/
  | goThrough (passed : Nat)
  | readLines
  | readAll
  /-- What can be asked of a writer can be asked of every file. -/
  | ofWriter (call : WriterCall)

namespace FileCall

/-- A call as an action on a file. -/
def action : FileCall → FileAction Unit
  | readLine => (fun _ => ()) <$> File.readLine
  | goThrough passed => (fun _ => ()) <$> File.takeLines (passed + 1)
  | readLines => (fun _ => ()) <$> File.readLines
  | readAll => (fun _ => ()) <$> File.readAll
  | ofWriter call => call.onFile

/-- Whether a call closes the file. -/
def isClose : FileCall → Bool
  | ofWriter call => call.isClose
  | _ => false

/-- Whether a call reads. -/
def reads : FileCall → Bool
  | ofWriter _ => false
  | _ => true

/-- Whether a call writes a text. -/
def writes : FileCall → Bool
  | ofWriter call => call.writes
  | _ => false

/-- Whether a call is of the wrong direction for a file. -/
def misdirected (call : FileCall) : File → Bool
  | .reader _ _ => call.writes
  | .writer _ _ => call.reads

/-- A call is *rejected* if it raises a fault, of some kind, and changes nothing. -/
def RejectedAt (call : FileCall) (kind : FaultKind) (s : File × Host) : Prop :=
  ∃ fault, call.action.outcome s = (.error fault, s) ∧ fault.kind = kind

theorem isClose_eq_true_iff {call : FileCall} :
    call.isClose = true ↔ call = .ofWriter .close := by
  cases call <;> simp [isClose, WriterCall.isClose_eq_true_iff]

variable {call : FileCall} {file : File}

/-! ### Calls that are rejected -/

/-- A reader rejects calls that write. -/
theorem outcome_action_reader (hcall : call.writes = true) (r : Reader) (stream : InStream)
    (host : Host) :
    call.action.outcome (.reader r stream, host) =
      (.error (if r.closed then .closedFile else .notForWriting r.name),
        .reader r stream, host) := by
  cases call with
  | readLine | goThrough | readLines | readAll => cases hcall
  | ofWriter call =>
    cases call with
    | write s => rw [action, WriterCall.onFile, File.write, File.outcome_onWriter_reader]
    | print vs =>
      rw [action, WriterCall.onFile, File.print, File.write, File.outcome_onWriter_reader]
    | flush | close => cases hcall

/-- A writer rejects calls that read. -/
theorem outcome_action_writer (hcall : call.reads = true) (w : Writer) (stream : OutStream)
    (host : Host) :
    call.action.outcome (.writer w stream, host) =
      (.error (if w.closed then .closedFile else .notForReading w.name),
        .writer w stream, host) := by
  have h {α : Type} (reading : Reader → Disk → Action InStream α) :
      ((fun _ => ()) <$> File.onReader reading).outcome (.writer w stream, host) =
        (.error (if w.closed then .closedFile else .notForReading w.name),
          .writer w stream, host) := by
    rw [Action.outcome_map, File.outcome_onReader_writer]
    rfl
  cases call with
  | readLine | goThrough | readLines | readAll => exact h _
  | ofWriter call => cases hcall

/-- An open file rejects calls of the wrong direction as faults of input and output. -/
theorem rejectedAt_of_misdirected (hf : file.closed = false) (hcall : call.misdirected file = true)
    (host : Host) : call.RejectedAt .io (file, host) := by
  cases file with
  | reader r stream =>
    have hr : r.closed = false := hf
    refine ⟨.notForWriting r.name, ?_, rfl⟩
    rw [outcome_action_reader hcall, hr]
    rfl
  | writer w stream =>
    have hw : w.closed = false := hf
    refine ⟨.notForReading w.name, ?_, rfl⟩
    rw [outcome_action_writer hcall, hw]
    rfl

/-- A closed reader rejects calls that read. -/
theorem outcome_action_closed_reader (hcall : call.reads = true) {r : Reader}
    (hr : r.closed = true) (stream : InStream) (host : Host) :
    call.action.outcome (.reader r stream, host) =
      (.error .closedFile, .reader r stream, host) := by
  have h {α : Type} {reading : Reader → Disk → Action InStream α}
      (hc : (reading r host.disk).outcome stream = (.error .closedFile, stream)) :
      ((fun _ => ()) <$> File.onReader reading).outcome (.reader r stream, host) =
        (.error .closedFile, .reader r stream, host) := by
    rw [Action.outcome_map, File.outcome_onReader, hc]
    rfl
  cases call with
  | readLine => exact h (Reader.outcome_readLine_of_closed hr _ _)
  | goThrough passed => exact h (Reader.outcome_takeLines_succ_of_closed hr _ _ _)
  | readLines => exact h (Reader.outcome_readLines_of_closed hr _ _)
  | readAll => exact h (Reader.outcome_readAll_of_closed hr _ _)
  | ofWriter call => cases hcall

/-- Closing a closed file does nothing, and every other call on it is rejected. -/
theorem outcome_action_of_closed (call : FileCall) (hf : file.closed = true) (host : Host) :
    call.action.outcome (file, host) =
      (if call.isClose then .ok () else .error .closedFile, file, host) := by
  cases file with
  | reader r stream =>
    have hr : r.closed = true := hf
    cases call with
    | readLine | goThrough | readLines | readAll =>
      exact outcome_action_closed_reader rfl hr stream host
    | ofWriter call =>
      cases call with
      | write | print =>
        rw [outcome_action_reader rfl, hr]
        rfl
      | flush =>
        rw [action, WriterCall.onFile, File.outcome_flush_reader, hr]
        rfl
      | close =>
        rw [action, WriterCall.onFile, File.outcome_close_reader, Reader.outcome_close, hr]
        rfl
  | writer w stream =>
    have hw : w.closed = true := hf
    cases call with
    | readLine | goThrough | readLines | readAll =>
      rw [outcome_action_writer rfl, hw]
      rfl
    | ofWriter call =>
      have h := WriterCall.outcome_onFile call ⟨w, stream, host⟩
      rw [WriterCall.outcome_action_of_closed call hw] at h
      exact h

/-- A call closes a file exactly if it is a close, whether it returns or not; no call opens it
again. -/
theorem closed_outcome_action (call : FileCall) (file : File) (host : Host) :
    (call.action.outcome (file, host)).2.1.closed = (file.closed || call.isClose) := by
  cases call with
  | readLine | goThrough | readLines | readAll =>
    rw [action, Action.outcome_map]
    exact (File.closed_onReader _ file host).trans (Bool.or_false _).symm
  | ofWriter call =>
    cases file with
    | writer w stream =>
      have h := WriterCall.outcome_onFile call ⟨w, stream, host⟩
      exact (congrArg (fun left => left.2.1.closed) h).trans
        (WriterCall.closed_outcome_action call ⟨w, stream, host⟩)
    | reader r stream =>
      cases call with
      | write | print =>
        rw [outcome_action_reader rfl]
        exact (Bool.or_false _).symm
      | flush =>
        rw [action, WriterCall.onFile, File.outcome_flush_reader]
        exact (Bool.or_false _).symm
      | close =>
        rw [action, WriterCall.onFile, File.outcome_close_reader, Reader.outcome_close]
        cases hr : r.closed <;> simp [File.closed, isClose, WriterCall.isClose, hr]

end FileCall

namespace File

/-! ### What can happen to a file -/

/-- What can happen to a file: a call, or something that becomes of its stream and its host, such as
a call on another file with that stream. -/
inductive Step : File × Host → File × Host → Prop
  | call (call : FileCall) (file : File) (host : Host) :
      Step (file, host) (call.action.outcome (file, host)).2
  | reader (r : Reader) (stream stream' : InStream) (host host' : Host) :
      Step (.reader r stream, host) (.reader r stream', host')
  | writer (w : Writer) (stream stream' : OutStream) (host host' : Host) :
      Step (.writer w stream, host) (.writer w stream', host')

/-- The states that a file can get into. -/
inductive Reachable : File × Host → Prop
  | ofInput (name : Text) (stream : InStream) (host : Host) :
      Reachable (.ofInput name stream, host)
  | ofOutput (name : Text) (capacity : Nat) (stream : OutStream) (host : Host) :
      Reachable (.ofOutput name capacity stream, host)
  | step {s s'} (h : Reachable s) (hs : Step s s') : Reachable s'

/-- The states after a state. -/
abbrev Later : File × Host → File × Host → Prop := Relation.ReflTransGen Step

variable {s s' : File × Host}

/-! ### Closed files -/

theorem Step.closed (h : Step s s') (hc : s.1.closed = true) : s'.1.closed = true := by
  cases h with
  | call call file host =>
    rw [FileCall.closed_outcome_action, hc]
    rfl
  | reader | writer => exact hc

/-- A file that is closed stays so. -/
theorem closed_of_later (h : Later s s') (hc : s.1.closed = true) : s'.1.closed = true := by
  induction h with
  | refl => exact hc
  | tail _ hs ih => exact hs.closed ih

/-- Closing an open file leaves nothing held, whatever it raises. -/
theorem pending?_close_of_open {file : File} (hf : file.closed = false) (host : Host) :
    (close.outcome (file, host)).2.1.pending?.getD 0 = 0 := by
  cases file with
  | reader r stream =>
    rw [outcome_close_reader]
    rfl
  | writer w stream =>
    have hp := Writing.pending_close (w := ⟨w, stream, host⟩) hf
    have h := WriterCall.outcome_onFile .close ⟨w, stream, host⟩
    refine (congrArg (fun left => left.2.1.pending?.getD 0) h).trans ?_
    exact congrArg List.length hp

/-- A file that is closed holds nothing. -/
theorem Reachable.pending?_of_closed (h : Reachable s) (hc : s.1.closed = true) :
    s.1.pending?.getD 0 = 0 := by
  induction h with
  | ofInput name stream host => rfl
  | ofOutput name capacity stream host => rfl
  | step _ hs ih =>
    cases hs with
    | call call file host =>
      cases hf : file.closed with
      | true =>
        rw [FileCall.outcome_action_of_closed call hf]
        exact ih hf
      | false =>
        -- an open file is closed by `close` only
        rw [FileCall.closed_outcome_action, hf, Bool.false_or] at hc
        obtain rfl := FileCall.isClose_eq_true_iff.1 hc
        exact pending?_close_of_open hf host
    | reader | writer => exact ih hc

/-- In every state that a file can get into, closing it is what closes it, and it stays closed then.
Closing leaves nothing held, whatever it raises. Closing a closed file does nothing and raises
nothing, and every other call on it is rejected as a wrong value. An open file rejects calls of the
wrong direction as a fault of input and output. A call that is rejected changes nothing. -/
theorem Reachable.lifecycle (h : Reachable s) :
    (∀ call : FileCall, (call.action.outcome s).2.1.closed = (s.1.closed || call.isClose)) ∧
      (∀ s', Later s s' → s.1.closed = true → s'.1.closed = true) ∧
      ((close.outcome s).2.1.closed = true ∧ (close.outcome s).2.1.pending?.getD 0 = 0) ∧
      (s.1.closed = true → close.outcome s = (.ok (), s) ∧
        ∀ call : FileCall, call.isClose = false → call.RejectedAt .value s) ∧
      (s.1.closed = false →
        ∀ call : FileCall, call.misdirected s.1 = true → call.RejectedAt .io s) := by
  obtain ⟨file, host⟩ := s
  refine ⟨fun call => call.closed_outcome_action file host, fun s' hl hc => closed_of_later hl hc,
    ⟨?_, ?_⟩, fun hf => ⟨?_, fun call hcall => ?_⟩,
    fun hf call hcall => FileCall.rejectedAt_of_misdirected hf hcall host⟩
  · exact (FileCall.closed_outcome_action (.ofWriter .close) file host).trans (Bool.or_true _)
  · cases hf : file.closed with
    | true =>
      have hk := FileCall.outcome_action_of_closed (.ofWriter .close) hf host
      exact (congrArg (fun left => left.2.1.pending?.getD 0) hk).trans (h.pending?_of_closed hf)
    | false => exact pending?_close_of_open hf host
  · exact FileCall.outcome_action_of_closed (.ofWriter .close) hf host
  · refine ⟨.closedFile, ?_, rfl⟩
    rw [FileCall.outcome_action_of_closed call hf, hcall]
    rfl

/-- A writer that holds two bytes, on a sink that takes one: reading is rejected, and closing raises
a fault and leaves the writer closed with nothing held. -/
theorem Reachable.lifecycle_two :
    let host := Host.start ⟨none, none⟩ .fresh none
    let opened := (File.ofOutput [] 0 (.toSink (some 1) false), host)
    let s := ((FileCall.ofWriter (.write [1, 2])).action.outcome opened).2
    Reachable s ∧ s.1.pending? = some 2 ∧ FileCall.readLine.RejectedAt .io s ∧
      (close.outcome s).1 = .error (.writeFailed []) ∧
      (close.outcome s).2.1.closed = true ∧ (close.outcome s).2.1.pending?.getD 0 = 0 := by
  intro host opened s
  have hs : Reachable s := .step (.ofOutput [] 0 (.toSink (some 1) false) host) (.call _ _ _)
  obtain ⟨-, -, ⟨hclosed, hpending⟩, -, hopen⟩ := Reachable.lifecycle hs
  exact ⟨hs, rfl, hopen rfl .readLine rfl, rfl, hclosed, hpending⟩

end File

end ScriptBase

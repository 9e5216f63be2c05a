import ScriptBase.File.Basic

/-!
# Calls on a writer

A script writes to a writer, prints to it, flushes it and closes it. This module says which of the
calls close a writer, which texts are written by a row of calls, and what all calls leave as it is.

## Main definitions

* `ScriptBase.WriterCall`: what can be asked of a writer.
* `ScriptBase.WriterCall.written`: the texts that a row of calls writes before the writer is closed.
* `ScriptBase.Writing.asFile`: a writer as a file.
* `ScriptBase.Writing.Unaffected`: a property that hangs on nothing that handing on bytes changes.

## Main results

* `ScriptBase.WriterCall.outcome_action_of_closed`: calls on a closed writer change nothing.
* `ScriptBase.WriterCall.closed_outcome_action`: a call closes a writer exactly if it is `close`.
* `ScriptBase.Writing.failed_of_flush_error`, `ScriptBase.Writing.good_of_flush_ok`: what a flush
  says about the stream.
* `ScriptBase.WriterCall.keeps_action`: what every call keeps.
-/

namespace ScriptBase

/-- What can be asked of a writer. -/
inductive WriterCall where
  | write (s : Text)
  | print (vs : List Value)
  | flush
  | close

namespace WriterCall

/-- The text that a call writes. -/
def text : WriterCall → Text
  | write s => s
  | print vs => printedLine vs
  | flush | close => []

/-- Whether a call closes the writer. -/
def isClose : WriterCall → Bool
  | close => true
  | _ => false

/-- A call as an action on a writer with its stream and host. -/
def action : WriterCall → Action Writing Unit
  | write s => Writing.write s
  | print vs => Writing.print vs
  | flush => Writing.flush
  | close => Writing.close

/-- A call as an action on a file. -/
def onFile : WriterCall → FileAction Unit
  | write s => File.write s
  | print vs => File.print vs
  | flush => File.flush
  | close => File.close

/-- The texts that calls write one after another while the writer is open. -/
def written (calls : List WriterCall) : Text :=
  (calls.takeWhile fun call => !call.isClose).flatMap text

@[simp] theorem written_nil : written [] = [] := rfl

theorem written_cons_of_isClose {call : WriterCall} (h : call.isClose = true)
    (calls : List WriterCall) : written (call :: calls) = [] := by
  simp [written, h]

theorem written_cons_of_not_isClose {call : WriterCall} (h : call.isClose = false)
    (calls : List WriterCall) : written (call :: calls) = call.text ++ written calls := by
  simp [written, h]

theorem isClose_eq_true_iff {call : WriterCall} : call.isClose = true ↔ call = .close := by
  cases call <;> simp [isClose]

theorem notMem_close_cons {call : WriterCall} {calls : List WriterCall} :
    .close ∉ call :: calls ↔ call.isClose = false ∧ .close ∉ calls := by
  rw [List.mem_cons, not_or, Bool.eq_false_iff, ne_eq, isClose_eq_true_iff, eq_comm]

theorem written_of_close_notMem {calls : List WriterCall} (h : .close ∉ calls) :
    written calls = calls.flatMap text := by
  induction calls with
  | nil => rfl
  | cons call calls ih =>
    obtain ⟨hcall, hcalls⟩ := notMem_close_cons.1 h
    rw [written_cons_of_not_isClose hcall, ih hcalls, List.flatMap_cons]

end WriterCall

/-! ### Calls on files -/

/-- A writing as a file and its host. -/
def Writing.asFile (w : Writing) : File × Host := (.writer w.writer w.stream, w.host)

namespace WriterCall

theorem outcome_onFile (call : WriterCall) (w : Writing) :
    call.onFile.outcome w.asFile =
      ((call.action.outcome w).1, (call.action.outcome w).2.asFile) := by
  cases call with
  | write s => exact File.outcome_onWriter (Writing.write s) w
  | print vs => exact File.outcome_onWriter (Writing.print vs) w
  | flush =>
    rw [onFile, File.flush, Action.outcome_bind]
    exact File.outcome_onWriter Writing.flush w
  | close =>
    rw [onFile, File.close, Action.outcome_bind]
    exact File.outcome_onWriter Writing.close w

/-- A row of calls on a file is one on its writer. -/
theorem each_onFile (calls : List WriterCall) (w : Writing) :
    Action.each onFile calls w.asFile =
      ((Action.each action calls w).1, (Action.each action calls w).2.asFile) := by
  induction calls generalizing w with
  | nil => rfl
  | cons call calls ih => simp only [Action.each, outcome_onFile, ih]

end WriterCall

/-! ### What handing on bytes leaves as it is -/

namespace Writing

@[simp] theorem withStream_writer (w : Writing) (s : OutStream × Disk) :
    (w.withStream s).writer = w.writer := rfl

@[simp] theorem withStream_stream (w : Writing) (s : OutStream × Disk) :
    (w.withStream s).stream = s.1 := rfl

@[simp] theorem withStream_disk (w : Writing) (s : OutStream × Disk) :
    (w.withStream s).host.disk = s.2 := rfl

@[simp] theorem withPending_stream (w : Writing) (s : Text) :
    (w.withPending s).stream = w.stream := rfl

@[simp] theorem withPending_host (w : Writing) (s : Text) : (w.withPending s).host = w.host := rfl

@[simp] theorem withPending_pending (w : Writing) (s : Text) :
    (w.withPending s).writer.pending = s := rfl

@[simp] theorem withPending_closed (w : Writing) (s : Text) :
    (w.withPending s).writer.closed = w.writer.closed := rfl

/-- A property of writings that hangs neither on the stream and the disk nor on the bytes that are
held nor on the traces. -/
structure Unaffected (p : Writing → Prop) : Prop where
  stream : ∀ w s, p w → p (w.withStream s)
  pending : ∀ w s, p w → p (w.withPending s)
  diagnostics : ∀ w s, p w → p { w with host := { w.host with diagnostics := s } }

variable {p : Writing → Prop}

theorem keeps_trace (h : ∀ w s, p w → p { w with host := { w.host with diagnostics := s } })
    (e : Event) : (trace e).Keeps p := by
  intro w hw
  obtain ⟨s, hs⟩ := Host.exists_diagnostics_trace e w.host
  rw [trace, Action.outcome_on, hs]
  exact h w s hw

namespace Unaffected

variable (h : Unaffected p)

include h

theorem keeps_spill : spill.Keeps p := by
  intro w hw
  rw [outcome_spill]
  have hs := h.stream w (w.stream.write w.host.disk w.writer.pending) hw
  split
  · exact hw
  · dsimp only
    split
    · exact hs
    · exact h.pending _ _ hs

theorem keeps_write (s : Text) : (write s).Keeps p := by
  intro w hw
  rw [outcome_write]
  have hp := h.pending w (w.writer.pending ++ s) hw
  split
  · exact hw
  · dsimp only
    split
    · exact (Action.Keeps.bind (keeps_trace h.diagnostics _) fun _ => h.keeps_spill) _ hp
    · exact hp

theorem keeps_flush : flush.Keeps p := by
  intro w hw
  rw [outcome_flush]
  have hs := h.keeps_spill w hw
  split
  · exact hw
  · generalize spill.outcome w = left at hs
    rcases left with ⟨fault | _, w'⟩
    · exact hs
    · exact h.stream _ _ hs

theorem keeps_handOver : handOver.Keeps p := by
  intro w hw
  rw [outcome_handOver]
  split
  · exact hw
  · have hs := h.stream _ ((w.stream.write w.host.disk w.writer.pending).1.flush
      (w.stream.write w.host.disk w.writer.pending).2)
      (h.stream w (w.stream.write w.host.disk w.writer.pending) hw)
    dsimp only
    split
    · exact keeps_trace h.diagnostics _ _ hs
    · exact hs

theorem dropped {w : Writing} (hw : p w) : p w.dropped := by
  have hs := h.keeps_handOver w hw
  rw [Writing.dropped, outcome_drop]
  generalize handOver.outcome w = left at hs
  rcases left with ⟨fault | _, w'⟩
  · exact hs
  · dsimp only
    split
    · exact hs
    · exact h.stream _ _ hs

end Unaffected

/-! ### What a flush and a write say when they return -/

variable {w w' : Writing} {fault : Fault}

theorem failed_of_spill_error (h : spill.outcome w = (.error fault, w')) :
    fault.isIO = true ∧ w'.stream.failed = true := by
  rw [outcome_spill] at h
  split at h
  · cases h
  · dsimp only at h
    split at h
    · next hf =>
      cases h
      exact ⟨rfl, hf⟩
    · cases h

theorem pending_of_spill_ok (h : spill.outcome w = (.ok (), w')) : w'.writer.pending = [] := by
  rw [outcome_spill] at h
  split at h
  · next hp =>
    cases h
    exact hp
  · dsimp only at h
    split at h
    · cases h
    · cases h
      rfl

/-- A write that returns leaves fewer bytes than the writer may hold, whatever it held before. -/
theorem lt_capacity_of_write_ok {s : Text} (hn : w.writer.capacity ≠ 0)
    (h : (write s).outcome w = (.ok (), w')) :
    w'.writer.pending.length < w.writer.capacity := by
  rw [outcome_write] at h
  split at h
  · cases h
  · dsimp only at h
    split at h
    · -- the write has handed on all bytes, and a writer with a limit may hold none
      rw [Action.outcome_bind] at h
      generalize (trace _).outcome _ = left at h
      rcases left with ⟨_ | _, v⟩
      · cases h
      · rw [pending_of_spill_ok h]
        exact Nat.pos_of_ne_zero hn
    · next hf =>
      cases h
      exact Nat.lt_of_not_le fun hle => hf ⟨hn, hle⟩

/-- A flush of an open writer raises an input or output fault or none, and if it raises one then
the stream has failed. -/
theorem failed_of_flush_error (hw : w.writer.closed = false)
    (h : flush.outcome w = (.error fault, w')) :
    fault.isIO = true ∧ w'.stream.failed = true := by
  rw [outcome_flush, hw] at h
  rcases hs : spill.outcome w with ⟨_ | _, v⟩
  · rw [hs] at h
    cases h
    exact failed_of_spill_error hs
  · simp only [hs, Bool.false_eq_true, if_false] at h
    split at h
    · next hf =>
      cases h
      exact ⟨rfl, hf⟩
    · cases h

/-- After a flush that returns, the stream is good and the writer holds nothing. -/
theorem good_of_flush_ok (h : flush.outcome w = (.ok (), w')) :
    w'.stream.failed = false ∧ w'.writer.pending = [] := by
  rw [outcome_flush] at h
  split at h
  · cases h
  · rcases hs : spill.outcome w with ⟨_ | _, v⟩
    · simp [hs] at h
    · simp only [hs] at h
      split at h
      · cases h
      · next hf =>
        have hp := pending_of_spill_ok hs
        cases h
        exact ⟨by simpa using hf, hp⟩

/-! ### Closing -/

/-- Closing an open writer flushes it and releases it, also if the flush raises a fault. -/
theorem outcome_close (w : Writing) :
    close.outcome w =
      if w.writer.closed then (.ok (), w)
      else
        match flush.outcome w with
        | (.error fault, w') =>
          match release.outcome w' with
          | (.error other, w'') => (.error other, w'')
          | (.ok _, w'') => (.error fault, w'')
        | (.ok _, w') =>
          match release.outcome w' with
          | (.error other, w'') => (.error other, w'')
          | (.ok _, w'') => (trace (.writerClosed w''.writer.name)).outcome w'' := by
  cases hc : w.writer.closed with
  | true => simp [close, Action.outcome_bind, hc]
  | false =>
    simp only [close, Action.outcome_bind, Action.outcome_get, hc, Action.outcome_tryCatch,
      Bool.false_eq_true, if_false]
    rcases hf : flush.outcome w with ⟨fault | _, w'⟩
    · simp only [(failed_of_flush_error hc hf).1, if_true, Action.outcome_bind,
        Action.outcome_throw]
      rcases release.outcome w' with ⟨_ | _, w''⟩ <;> rfl
    · dsimp only
      rcases release.outcome w' with ⟨_ | _, w''⟩ <;> rfl

theorem closed_release (w : Writing) : (release.outcome w).2.writer.closed = true := by
  rw [outcome_release]
  rfl

theorem pending_release (w : Writing) : (release.outcome w).2.writer.pending = [] := by
  rw [outcome_release]
  rfl

theorem unaffected_closed (b : Bool) : Unaffected fun w => w.writer.closed = b :=
  ⟨fun _ _ h => h, fun _ _ h => h, fun _ _ h => h⟩

/-- A close of an open writer that returns has flushed it and released it without a fault. -/
theorem flush_release_of_close_ok (hw : w.writer.closed = false)
    (h : (close.outcome w).1 = .ok ()) :
    ∃ w', flush.outcome w = (.ok (), w') ∧ (release.outcome w').1 = .ok () := by
  rw [outcome_close, hw] at h
  rcases hf : flush.outcome w with ⟨fault | _, w'⟩
  · rw [hf] at h
    rcases hr : release.outcome w' with ⟨_ | _, w''⟩ <;> simp [hr] at h
  · refine ⟨w', rfl, ?_⟩
    rw [hf] at h
    rcases hr : release.outcome w' with ⟨_ | _, w''⟩
    · simp [hr] at h
    · rfl

/-- Closing an open writer leaves what a flush and a release leave, apart from traces. -/
theorem close_of_release_flush (hw : w.writer.closed = false)
    (hd : ∀ w s, p w → p { w with host := { w.host with diagnostics := s } })
    (h : p (release.outcome (flush.outcome w).2).2) : p (close.outcome w).2 := by
  rw [outcome_close, hw]
  simp only [Bool.false_eq_true, if_false]
  rcases hf : flush.outcome w with ⟨fault | _, w'⟩
  · rw [hf] at h
    dsimp only
    rcases hr : release.outcome w' with ⟨_ | _, w''⟩ <;> rwa [hr] at h
  · rw [hf] at h
    dsimp only
    rcases hr : release.outcome w' with ⟨_ | _, w''⟩
    · rwa [hr] at h
    · rw [hr] at h
      exact keeps_trace hd _ w'' h

/-- A writer holds nothing when it has been closed, also if closing it has raised a fault. -/
theorem pending_close (hw : w.writer.closed = false) : (close.outcome w).2.writer.pending = [] :=
  close_of_release_flush (p := fun w => w.writer.pending = []) hw (fun _ _ h => h)
    (pending_release _)

/-- Closing keeps what hangs neither on these nor on whether the writer is closed. -/
theorem Unaffected.keeps_close (h : Unaffected p)
    (hr : ∀ w, p w → p { w with writer := { w.writer with closed := true, pending := [] } }) :
    close.Keeps p := by
  intro w hw
  cases hc : w.writer.closed with
  | true =>
    rw [outcome_close, hc]
    exact hw
  | false =>
    refine close_of_release_flush hc h.diagnostics ?_
    rw [outcome_release]
    exact h.stream _ _ (hr _ (h.keeps_flush w hw))

/-- After a close of an open writer that returns, the stream is good. -/
theorem good_of_close_ok (hw : w.writer.closed = false) (h : (close.outcome w).1 = .ok ()) :
    (close.outcome w).2.stream.failed = false := by
  refine close_of_release_flush (p := fun w => w.stream.failed = false) hw (fun _ _ h => h) ?_
  obtain ⟨w', hf, hr⟩ := flush_release_of_close_ok hw h
  rw [hf]
  rw [outcome_release] at hr ⊢
  refine OutStream.good_close_of_good (good_of_flush_ok hf).1 ?_
  dsimp only at hr
  split at hr
  · cases hr
  · next hs => simpa using hs

theorem closed_close (w : Writing) : (close.outcome w).2.writer.closed = true := by
  cases hw : w.writer.closed with
  | true => simp [outcome_close, hw]
  | false =>
    exact close_of_release_flush hw (unaffected_closed true).diagnostics (closed_release _)

end Writing

namespace WriterCall

/-- A call closes the writer exactly if it is `close`, whether it returns or not; no call opens it
again. -/
theorem closed_outcome_action (call : WriterCall) (w : Writing) :
    (call.action.outcome w).2.writer.closed = (w.writer.closed || call.isClose) := by
  have h := Writing.unaffected_closed w.writer.closed
  cases call with simp only [isClose, Bool.or_false, Bool.or_true]
  | write s => exact h.keeps_write s w rfl
  | print vs => exact h.keeps_write (printedLine vs) w rfl
  | flush => exact h.keeps_flush w rfl
  | close => exact Writing.closed_close w

/-- Every call keeps what hangs on nothing that handing on bytes and closing change. -/
theorem keeps_action {p : Writing → Prop} (h : Writing.Unaffected p)
    (hr : ∀ w, p w → p { w with writer := { w.writer with closed := true, pending := [] } })
    (call : WriterCall) : call.action.Keeps p := by
  cases call with
  | write s => exact h.keeps_write s
  | print vs => exact h.keeps_write (printedLine vs)
  | flush => exact h.keeps_flush
  | close => exact h.keeps_close hr

/-- Calls on a closed writer change nothing, and apart from closing it again they raise a fault. -/
theorem outcome_action_of_closed (call : WriterCall) {w : Writing} (h : w.writer.closed = true) :
    call.action.outcome w = (if call.isClose then .ok () else .error .closedFile, w) := by
  cases call with
  | write s => simp [action, isClose, Writing.outcome_write, h]
  | print vs => simp [action, isClose, Writing.print, Writing.outcome_write, h]
  | flush => simp [action, isClose, Writing.outcome_flush, h]
  | close => simp [action, isClose, Writing.outcome_close, h]

end WriterCall

end ScriptBase

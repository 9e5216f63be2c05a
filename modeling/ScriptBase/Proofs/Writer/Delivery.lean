import ScriptBase.Proofs.Writer.Ledger

/-!
# What a limited sink receives

A sink takes bytes up to a limit and fails for good past it. Whatever a script asks of a writer on
such a sink, the sink has received a prefix of the texts that were written: no byte comes twice, out
of order or behind a gap, however often handing on has failed and was tried again. A flush or a
close that returns has delivered everything.

## Main definitions

* `ScriptBase.Ledger.delivery`: a sink has received a prefix of what its stream was given, and all
  of it unless the stream has failed.
* `ScriptBase.Writing.onSink`: a writer that has just been opened on a stream to a sink.
* `ScriptBase.WriterCall.after`: a writer after a row of calls.

## Main results

* `ScriptBase.Writing.received_isPrefix_written`: a sink has received a prefix of what was written.
-/

namespace ScriptBase

/-- Taking bytes of which some do not fit leaves a prefix, and taking bytes that fit leaves all. -/
theorem Sink.data_write_prefix {k : Sink} (s : Text) :
    (k.write s).2.data <+: k.data ++ s ∧
      ((k.write s).1 = true → (k.write s).2.data = k.data ++ s) := by
  rw [OutStream.data_write_sink]
  refine ⟨(List.prefix_append_right_inj k.data).2 (List.take_prefix ..), fun h => ?_⟩
  have hn : k.fitting s.length = s.length := by simpa [Sink.write] using h
  rw [hn, List.take_length]

namespace Ledger

/-- The sink of a stream has received a prefix of what the stream was given, and all of it as long
as the stream is good. -/
def delivery : Ledger where
  holds s _ t := (∃ k, s.target = .sink k) ∧ s.received <+: t ∧ (s.failed = false → s.received = t)
  write := by
    rintro ⟨target, failed⟩ d t bytes ⟨⟨k, rfl⟩, hp, he⟩
    cases failed with
    | true => exact ⟨⟨k, rfl⟩, hp.trans (List.prefix_append ..), nofun⟩
    | false =>
      obtain rfl : k.data = t := he rfl
      obtain ⟨hw, hw'⟩ := Sink.data_write_prefix (k := k) bytes
      exact ⟨⟨_, rfl⟩, hw, fun h => hw' (by simpa [OutStream.write] using h)⟩
  flush := by
    rintro ⟨target, failed⟩ d t ⟨⟨k, rfl⟩, hp, he⟩
    cases failed with
    | true => exact ⟨⟨k, rfl⟩, hp, he⟩
    | false => exact ⟨⟨_, rfl⟩, hp, fun _ => he rfl⟩
  close := by
    rintro ⟨target, failed⟩ d t ⟨⟨k, rfl⟩, hp, he⟩
    exact ⟨⟨k, rfl⟩, hp, he⟩

end Ledger

/-- A writer that has just been opened on a stream to a sink with so much room. -/
def Writing.onSink (name : Text) (capacity : Nat) (room : Option Nat) (failsFlush : Bool)
    (host : Host) : Writing :=
  ⟨.opened name capacity, .toSink room failsFlush, host⟩

namespace WriterCall

open Writing

/-- A writer after a row of calls, whatever they have raised. -/
def after (calls : List WriterCall) (w : Writing) : Writing := (Action.each action calls w).2

theorem closed_after (calls : List WriterCall) (w : Writing) :
    (after calls w).writer.closed = true ↔ w.writer.closed = true ∨ .close ∈ calls := by
  induction calls generalizing w with
  | nil => simp [after, Action.each]
  | cons call calls ih =>
    have h := ih (call.action.outcome w).2
    rw [closed_outcome_action, Bool.or_eq_true, isClose_eq_true_iff, or_assoc] at h
    rw [List.mem_cons, eq_comm (a := close)]
    exact h

end WriterCall

namespace Writing

open WriterCall

theorem accounted_onSink (name : Text) (capacity : Nat) (room : Option Nat) (failsFlush : Bool)
    (host : Host) : Accounted .delivery [] (onSink name capacity room failsFlush host) :=
  ⟨[], [], rfl, ⟨⟨_, rfl⟩, List.prefix_rfl, fun _ => rfl⟩, fun _ => rfl⟩

/-- What a sink with limited room has received from a writer is at every point a prefix of the texts
that were written while the writer was open, also when the writer is dropped. It is all of them
after each flush and after the first close that returns. -/
theorem received_isPrefix_written (name : Text) (capacity : Nat) (room : Option Nat)
    (failsFlush : Bool) (host : Host) (calls : List WriterCall) :
    let w := after calls (onSink name capacity room failsFlush host)
    (w.writer.closed = true ↔ .close ∈ calls) ∧
      w.stream.received <+: written calls ∧
      w.dropped.stream.received <+: written calls ∧
      ((flush.outcome w).1 = .ok () → (flush.outcome w).2.stream.received = written calls) ∧
      (.close ∉ calls → (close.outcome w).1 = .ok () →
        (close.outcome w).2.stream.received = written calls) := by
  intro w
  have hw : Accounted .delivery (written calls) w :=
    accounted_each calls rfl (accounted_onSink name capacity room failsFlush host)
  have hc : w.writer.closed = true ↔ .close ∈ calls :=
    (closed_after calls _).trans (or_iff_right Bool.false_ne_true)
  refine ⟨hc, ?_, ?_, fun hf => ?_, fun hn hk => ?_⟩
  · obtain ⟨given, rest, ht, ⟨-, hp, -⟩, -⟩ := hw
    exact hp.trans ⟨rest, ht⟩
  · obtain ⟨given, rest, ht, ⟨-, hp, -⟩, -⟩ := holds_dropped hw
    exact hp.trans ⟨rest, ht⟩
  · have hf' : flush.outcome w = (.ok (), (flush.outcome w).2) := Prod.ext hf rfl
    exact (holds_of_flush_ok hw hf').2.2 (good_of_flush_ok hf').1
  · have ho : w.writer.closed = false := Bool.eq_false_iff.2 fun h => hn (hc.1 h)
    exact (holds_of_close_ok ho hw hk).2.2 (good_of_close_ok ho hk)

/-- A sink with room for four bytes, through a writer that holds less than three: the first text is
handed on as it comes, and a flush or a close delivers the second. -/
theorem received_isPrefix_written_four :
    let host := Host.start ⟨none, none⟩ Disk.fresh none
    let w := after [.write [1, 2, 3], .write [4]] (onSink [] 3 (some 4) false host)
    ((flush.outcome w).1 = .ok () ∧ (flush.outcome w).2.stream.received = [1, 2, 3, 4]) ∧
      (close.outcome w).1 = .ok () ∧ (close.outcome w).2.stream.received = [1, 2, 3, 4] := by
  intro host w
  obtain ⟨-, -, -, hflush, hclose⟩ :=
    received_isPrefix_written [] 3 (some 4) false host [.write [1, 2, 3], .write [4]]
  exact ⟨⟨rfl, hflush rfl⟩, rfl, hclose (by simp) rfl⟩

end Writing

end ScriptBase

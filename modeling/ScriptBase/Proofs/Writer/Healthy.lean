import ScriptBase.Proofs.Writer.Ledger

/-!
# Writers on streams that never fail

A ledger is *healthy* if the streams in it have not failed. As a ledger is kept by writing, flushing
and closing, a stream in a healthy ledger never fails. A writer on it carries out every call without
a fault, unless the call has something to trace and the settings are malformed: then tracing raises
one. With well-formed settings, all calls of a row return, and after the last one, a close, the
stream was given all that was written. With any settings, closing and dropping a writer close a
stream that was given it all.

## Main definitions

* `ScriptBase.Ledger.Healthy`: no stream in the ledger has failed.
* `ScriptBase.Writing.Sound`: an open writer on such a stream, with well-formed settings.
* `ScriptBase.WriterCall.Traces`: a call has something to trace.

## Main results

* `ScriptBase.WriterCall.fst_outcome_action`: what a call on an open writer returns.
* `ScriptBase.Writing.of_close`, `ScriptBase.Writing.of_drop`: what a writer leaves at its end.
* `ScriptBase.WriterCall.each_close_of_sound`: a row of calls that ends with a close.
-/

namespace ScriptBase

/-- No stream in the ledger has failed. -/
def Ledger.Healthy (L : Ledger) : Prop := ∀ {s d t}, L.holds s d t → s.failed = false

/-- A stream to a sink that takes all bytes, has got some and was flushed so often. -/
def OutStream.taking (data : Text) (flushes : Nat) : OutStream :=
  ⟨.sink ⟨data, none, flushes, false⟩, false⟩

/-- The streams to a sink that takes all bytes, with what it has got from some point on. -/
def Ledger.taking (before : Text) : Ledger where
  holds s _ t := ∃ flushes, s = .taking (before ++ t) flushes
  write bytes := by
    rintro ⟨flushes, rfl⟩
    exact ⟨flushes, by simp [OutStream.taking, OutStream.write, Sink.write, Sink.fitting]⟩
  flush := by
    rintro _ _ _ ⟨flushes, rfl⟩
    exact ⟨flushes + 1, rfl⟩
  close := by
    rintro _ _ _ ⟨flushes, rfl⟩
    exact ⟨flushes, rfl⟩

theorem Ledger.healthy_taking (before : Text) : (taking before).Healthy := by
  rintro _ _ _ ⟨flushes, rfl⟩
  rfl

namespace Writing

variable {L : Ledger} {t : Text} {w w' : Writing}

/-- An open writer that has written a text to a stream in a ledger, on a host with well-formed
settings. -/
structure Sound (L : Ledger) (t : Text) (w : Writing) : Prop where
  isOpen : w.writer.closed = false
  accounted : Accounted L t w
  settings : ∃ settings, w.host.environment.settings = .ok settings

/-! ### What calls leave as it is -/

theorem unaffected_environment (e : Environment) : Unaffected fun w => w.host.environment = e :=
  ⟨fun _ _ h => h, fun _ _ h => h, fun _ _ h => h⟩

theorem unaffected_capacity (n : Nat) : Unaffected fun w => w.writer.capacity = n :=
  ⟨fun _ _ h => h, fun _ _ h => h, fun _ _ h => h⟩

end Writing

namespace WriterCall

open Writing

/-- No call changes the environment. -/
theorem environment_outcome_action (call : WriterCall) (w : Writing) :
    (call.action.outcome w).2.host.environment = w.host.environment :=
  keeps_action (unaffected_environment w.host.environment) (fun _ h => h) call w rfl

theorem environment_each (calls : List WriterCall) (w : Writing) :
    (Action.each action calls w).2.host.environment = w.host.environment :=
  Action.Keeps.each (keeps_action (unaffected_environment w.host.environment) fun _ h => h) calls w
    rfl

/-- No call changes how many bytes a writer may hold. -/
theorem capacity_each (calls : List WriterCall) (w : Writing) :
    (Action.each action calls w).2.writer.capacity = w.writer.capacity :=
  Action.Keeps.each (keeps_action (unaffected_capacity w.writer.capacity) fun _ h => h) calls w rfl

end WriterCall

namespace Writing

variable {L : Ledger} {t : Text} {w : Writing}

/-! ### What calls return -/

/-- A trace returns exactly if the settings are well-formed. -/
theorem fst_trace (e : Event) (w : Writing) :
    ((trace e).outcome w).1 = w.host.environment.settings.map fun _ => () := by
  rw [trace, Action.outcome_on]
  exact Host.fst_outcome_trace e w.host

/-- With another text, a writer holds as many bytes as it may. -/
def Fills (w : Writing) (s : Text) : Prop :=
  w.writer.capacity ≠ 0 ∧ w.writer.capacity ≤ (w.writer.pending ++ s).length

instance (w : Writing) (s : Text) : Decidable (w.Fills s) := inferInstanceAs (Decidable (_ ∧ _))

theorem outcome_write_of_open (hc : w.writer.closed = false) (s : Text) :
    (write s).outcome w =
      let w' := w.withPending (w.writer.pending ++ s)
      if w.Fills s then
        (do trace (.spilled w'.writer.pending.length w.writer.name); spill).outcome w'
      else (.ok (), w') := by
  rw [outcome_write, hc]
  rfl

/-- What is held can be handed on to a stream that does not fail. -/
theorem spill_eq_ok (hL : L.Healthy) (h : Accounted L t w) : (spill.outcome w).1 = .ok () := by
  obtain ⟨given, rest, -, hl, -⟩ := h
  have hf := hL (L.write w.writer.pending hl)
  rw [outcome_spill]
  split
  · rfl
  · simp [withStream, hf]

/-- A write to a stream that does not fail returns, unless it hands on bytes and cannot trace
that. -/
theorem fst_write (hL : L.Healthy) (hc : w.writer.closed = false) (h : Accounted L t w)
    (s : Text) :
    ((write s).outcome w).1 =
      if w.Fills s then w.host.environment.settings.map fun _ => () else .ok () := by
  have ha := accounted_withPending h s
  rw [outcome_write_of_open hc]
  dsimp only
  split
  · have ht := fst_trace (.spilled (w.withPending (w.writer.pending ++ s)).writer.pending.length
      w.writer.name) (w.withPending (w.writer.pending ++ s))
    have hk := keeps_trace (p := Accounted L (t ++ s)) (fun _ s h => h.diagnostics s)
      (.spilled (w.withPending (w.writer.pending ++ s)).writer.pending.length w.writer.name) _ ha
    rw [Action.outcome_bind]
    -- the trace comes before any byte is handed on, and a fault of it is the fault of the write
    generalize (trace _).outcome _ = left at ht hk
    rcases left with ⟨fault | _, w'⟩
    · exact ht
    · exact (spill_eq_ok hL hk).trans ht
  · rfl

theorem flush_eq_ok (hL : L.Healthy) (hc : w.writer.closed = false) (h : Accounted L t w) :
    (flush.outcome w).1 = .ok () := by
  have hs := spill_eq_ok hL h
  obtain ⟨given, rest, -, hl, -⟩ := accounted_spill h
  rw [outcome_flush, hc]
  simp only [Bool.false_eq_true, if_false]
  generalize spill.outcome w = left at hs hl
  obtain ⟨result, w'⟩ := left
  obtain rfl := hs
  have hf := hL (L.flush hl)
  simp [withStream, hf]

theorem release_eq_ok (hL : L.Healthy) (h : L.holds w.stream w.host.disk t) :
    (release.outcome w).1 = .ok () := by
  have hf := hL (L.close h)
  have hf' : (w.stream.close w.host.disk).1.fileFailed = false := by
    rw [OutStream.fileFailed]
    split
    · rfl
    · exact hf
  rw [outcome_release]
  simp [withStream, hf']

/-- Closing a writer on a stream that does not fail returns, unless it cannot be traced. -/
theorem fst_close (hL : L.Healthy) (hc : w.writer.closed = false) (h : Accounted L t w) :
    (close.outcome w).1 = w.host.environment.settings.map fun _ => () := by
  have hf := flush_eq_ok hL hc h
  have hl := holds_of_flush_ok h (Prod.ext hf rfl)
  have he := (unaffected_environment w.host.environment).keeps_flush w rfl
  rw [outcome_close, hc]
  simp only [Bool.false_eq_true, if_false]
  generalize flush.outcome w = left at hf hl he
  obtain ⟨result, w'⟩ := left
  obtain rfl := hf
  have hr := release_eq_ok hL hl
  have he' : (release.outcome w').2.host.environment = w.host.environment := by
    rw [outcome_release]
    exact he
  dsimp only
  generalize release.outcome w' = left at hr he'
  obtain ⟨result, w''⟩ := left
  obtain rfl := hr
  rw [← he']
  exact fst_trace _ w''

/-! ### Endings -/

variable {q : OutStream → Disk → Prop}

/-- Closing an open writer closes a stream that was given all that was written. -/
theorem of_close (hL : L.Healthy) (hq : ∀ s d, L.holds s d t → q (s.close d).1 (s.close d).2)
    (hc : w.writer.closed = false) (h : Accounted L t w) :
    q (close.outcome w).2.stream (close.outcome w).2.host.disk :=
  of_close_of_flush_ok hq hc h (flush_eq_ok hL hc h)

/-- Dropping an open writer raises no fault, and closes a stream that was given all that was
written. -/
theorem of_drop (hL : L.Healthy) (hq : ∀ s d, L.holds s d t → q (s.close d).1 (s.close d).2)
    (hc : w.writer.closed = false) (h : Accounted L t w) :
    (drop.outcome w).1 = .ok () ∧ q w.dropped.stream w.dropped.host.disk := by
  obtain ⟨given, rest, rfl, hl, hr⟩ := handedOver_handOver hc h
  have hk : handOver.outcome w = (.ok (), (handOver.outcome w).2) :=
    Prod.ext (handOver_eq_ok (hL hl)) rfl
  obtain rfl := hr (hL hl)
  rw [List.append_nil] at hq
  rw [dropped, outcome_drop_of_open hc, hk]
  exact ⟨rfl, hq _ _ hl⟩

end Writing

namespace WriterCall

open Writing

variable {L : Ledger} {t : Text} {w : Writing}

/-- Whether a call on an open writer has something to trace: that bytes are handed on because they
are too many, or the end. -/
def Traces (w : Writing) : WriterCall → Prop
  | write s => w.Fills s
  | print vs => w.Fills (printedLine vs)
  | flush => False
  | close => True

instance (w : Writing) : (call : WriterCall) → Decidable (call.Traces w)
  | write s => inferInstanceAs (Decidable (w.Fills s))
  | print vs => inferInstanceAs (Decidable (w.Fills (printedLine vs)))
  | flush => inferInstanceAs (Decidable False)
  | close => inferInstanceAs (Decidable True)

/-- On a stream that does not fail, a call returns unless it has something to trace and the settings
are malformed. -/
theorem fst_outcome_action (hL : L.Healthy) (hc : w.writer.closed = false) (h : Accounted L t w)
    (call : WriterCall) :
    (call.action.outcome w).1 =
      if call.Traces w then w.host.environment.settings.map fun _ => () else .ok () := by
  cases call with
  | write s => exact fst_write hL hc h s
  | print vs => exact fst_write hL hc h (printedLine vs)
  | flush => exact flush_eq_ok hL hc h
  | close => exact fst_close hL hc h

/-- A call on a sound writer raises no fault. -/
theorem outcome_action_of_sound (hL : L.Healthy) (call : WriterCall) (h : Sound L t w) :
    (call.action.outcome w).1 = .ok () := by
  obtain ⟨settings, hs⟩ := h.settings
  rw [fst_outcome_action hL h.isOpen h.accounted, hs]
  exact ite_self _

/-- A writer stays sound until it is closed. -/
theorem sound_action (call : WriterCall) (hc : call.isClose = false) (h : Sound L t w) :
    Sound L (t ++ call.text) (call.action.outcome w).2 where
  isOpen := by rw [closed_outcome_action, h.isOpen, hc, Bool.or_self]
  accounted := accounted_action call h.isOpen h.accounted
  settings := by
    rw [environment_outcome_action]
    exact h.settings

/-- Of a row of calls without a close none raises a fault, and the writer stays sound. -/
theorem sound_each (hL : L.Healthy) (calls : List WriterCall) (hc : .close ∉ calls)
    (h : Sound L t w) :
    (∀ result ∈ (Action.each action calls w).1, result = .ok ()) ∧
      Sound L (t ++ written calls) (Action.each action calls w).2 := by
  induction calls generalizing t w with
  | nil =>
    rw [written_nil, List.append_nil]
    exact ⟨nofun, h⟩
  | cons call calls ih =>
    obtain ⟨hcall, hcalls⟩ := notMem_close_cons.1 hc
    have ho := outcome_action_of_sound hL call h
    obtain ⟨hr, hs⟩ := ih hcalls (sound_action call hcall h)
    rw [written_cons_of_not_isClose hcall, ← List.append_assoc]
    refine ⟨fun result hm => ?_, hs⟩
    rcases List.mem_cons.1 hm with rfl | hm
    · exact ho
    · exact hr result hm

/-- If a close follows, it raises no fault either, and it closes a stream that was given all
texts. -/
theorem each_close_of_sound (hL : L.Healthy) {q : OutStream → Disk → Prop}
    (calls : List WriterCall)
    (hq : ∀ s d, L.holds s d (t ++ written calls) → q (s.close d).1 (s.close d).2)
    (hc : .close ∉ calls) (h : Sound L t w) :
    let left := Action.each action (calls ++ [.close]) w
    (∀ result ∈ left.1, result = .ok ()) ∧ q left.2.stream left.2.host.disk ∧
      left.2.host.environment = w.host.environment := by
  obtain ⟨hr, hs⟩ := sound_each hL calls hc h
  have he := environment_each (calls ++ [.close]) w
  rw [Action.each_append] at he ⊢
  have hk := outcome_action_of_sound hL .close hs
  refine ⟨fun result hm => ?_, of_close hL hq hs.isOpen hs.accounted, he⟩
  rcases List.mem_append.1 hm with hm | hm
  · exact hr result hm
  · exact (List.mem_singleton.1 hm).trans hk

end WriterCall

end ScriptBase

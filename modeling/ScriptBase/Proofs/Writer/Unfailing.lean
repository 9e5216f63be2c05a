import ScriptBase.Proofs.Writer.Delivery
import ScriptBase.Proofs.Writer.Filing
import ScriptBase.Scope

/-!
# What writers deliver to streams that never fail

A stream never fails if it stays good whatever is written to it and however often it is flushed. Of
the texts that are written through a writer, such a stream has received a part, and the writer holds
the rest. How much that is hangs on the size of the buffer. What there is at the end does not: when
the writer is closed, when it is dropped and when a block ends that uses it, the stream has received
all of it.

Handing on bytes because they are too many is traced, and so is closing. Malformed settings make
both raise a fault. The text is written all the same.

## Main definitions

* `ScriptBase.OutStream.Receives`: what a stream becomes by what is written to it.
* `ScriptBase.OutStream.NeverFails`: a stream that never fails.
* `ScriptBase.OutStream.Holds`: what a stream has received, on the way or delivered.
* `ScriptBase.OutStream.Delivers`: a stream has received a text, and its target has got it.

## Main results

* `ScriptBase.OutStream.neverFails_toSink`, `ScriptBase.OutStream.Filed.neverFails`: streams that
  never fail.
* `ScriptBase.Writing.received_append_pending`: writers on streams that never fail.
-/

namespace ScriptBase

namespace OutStream

/-! ### Streams that never fail -/

/-- What a stream and its disk become as a text is written, in pieces, with flushes and closes
between them. -/
inductive Receives (s : OutStream) (d : Disk) : OutStream → Disk → Text → Prop
  | refl : Receives s d s d []
  | write {s' d' t} (bytes : Text) (h : Receives s d s' d' t) :
      Receives s d (s'.write d' bytes).1 (s'.write d' bytes).2 (t ++ bytes)
  | flush {s' d' t} (h : Receives s d s' d' t) :
      Receives s d (s'.flush d').1 (s'.flush d').2 t
  | close {s' d' t} (h : Receives s d s' d' t) :
      Receives s d (s'.close d').1 (s'.close d').2 t

/-- A stream *never fails* if it is good whatever is written to it and however often it is flushed
and closed. -/
def NeverFails (s : OutStream) (d : Disk) : Prop :=
  ∀ s' d' t, s.Receives d s' d' t → s'.failed = false

end OutStream

namespace Ledger

variable {s : OutStream} {d : Disk}

/-- What becomes of a stream, with the text that is written to it. -/
def receiving (s : OutStream) (d : Disk) : Ledger where
  holds := s.Receives d
  write bytes h := h.write bytes
  flush h := h.flush
  close h := h.close

theorem healthy_receiving (hs : s.NeverFails d) : (receiving s d).Healthy := fun h => hs _ _ _ h

/-- A ledger keeps account of what is written to a stream. -/
theorem holds_of_receives {L : Ledger} {s' : OutStream} {d' : Disk} {t u : Text}
    (h : L.holds s d t) (hr : s.Receives d s' d' u) : L.holds s' d' (t ++ u) := by
  induction hr with
  | refl => rwa [List.append_nil]
  | write bytes _ ih =>
    rw [← List.append_assoc]
    exact L.write bytes ih
  | flush _ ih => exact L.flush ih
  | close _ ih => exact L.close ih

end Ledger

namespace OutStream

variable {s s' : OutStream} {d d' : Disk} {t u : Text}

/-- Streams in a healthy ledger never fail. -/
theorem neverFails_of_holds {L : Ledger} (hL : L.Healthy) (h : L.holds s d t) : s.NeverFails d :=
  fun _ _ _ hr => hL (Ledger.holds_of_receives h hr)

/-- A file takes all bytes. -/
theorem Filed.neverFails {base : Disk} {p : Path} (h : Filed base p s d t) : s.NeverFails d :=
  neverFails_of_holds (Ledger.healthy_filing base p []) h

/-- A sink without a limit takes all bytes. -/
theorem neverFails_toSink (d : Disk) : (toSink none false).NeverFails d :=
  neverFails_of_holds (Ledger.healthy_taking []) ⟨0, rfl⟩

/-! ### What a stream has received -/

/-- What the target of a stream has got. -/
def contents (s : OutStream) (d : Disk) : Text :=
  match s.target with
  | .sink k => k.data
  | .file f => d.content f.path

/-- The target of a stream to a file has got what the file holds. -/
theorem Filed.contents_eq {base : Disk} {p : Path} {c : Text} (h : Filed base p s d t)
    (hn : d.node? p = some (.file c)) : s.contents d = c := by
  obtain ⟨-, -, f, -, hf, rfl, -⟩ := h
  rw [contents, hf]
  dsimp only
  rw [Disk.content, hn]

/-- A stream *holds* a text if its sink has got it, or if its file has got the start of it and the
rest is held back on the way to the end of the file. -/
inductive Holds : OutStream → Disk → Text → Prop
  | sink (k : Sink) (failed : Bool) (d : Disk) : Holds ⟨.sink k, failed⟩ d k.data
  | file {base p s d t} (h : Filed base p s d t) : Holds s d t

namespace Holds

/-- A write that does not fail adds all its bytes. -/
theorem write (h : s.Holds d t) (bytes : Text) (hg : (s.write d bytes).1.failed = false) :
    (s.write d bytes).1.Holds (s.write d bytes).2 (t ++ bytes) := by
  cases h with
  | sink k failed =>
    cases failed with
    | true => cases hg
    | false =>
      have hw : (k.write bytes).1 = true := by simpa [OutStream.write] using hg
      rw [← (Sink.data_write_prefix bytes).2 hw]
      exact .sink (k.write bytes).2 _ d
  | file h => exact .file (h.write bytes)

theorem flush (h : s.Holds d t) : (s.flush d).1.Holds (s.flush d).2 t := by
  cases h with
  | sink k failed =>
    cases failed with
    | true => exact .sink k true d
    | false => exact .sink k.flush.2 _ d
  | file h => exact .file h.flush.1

theorem close (h : s.Holds d t) : (s.close d).1.Holds (s.close d).2 t := by
  cases h with
  | sink k failed => exact .sink k failed d
  | file h => exact .file h.close.1

/-- What a stream holds is delivered once it is flushed. -/
theorem contents_flush (h : s.Holds d t) : (s.flush d).1.contents (s.flush d).2 = t := by
  cases h with
  | sink k failed => cases failed <;> rfl
  | file h => exact h.flush.1.contents_eq h.flush.2

/-- What a stream holds is delivered once it is closed. -/
theorem contents_close (h : s.Holds d t) : (s.close d).1.contents (s.close d).2 = t := by
  cases h with
  | sink k failed => rfl
  | file h => exact h.close.1.contents_eq h.close.2

/-- What is written to a stream that never fails is held behind what it held before. -/
theorem receives (h : s.Holds d t) (hs : s.NeverFails d) (hr : s.Receives d s' d' u) :
    s'.Holds d' (t ++ u) := by
  induction hr with
  | refl => rwa [List.append_nil]
  | write bytes hr ih =>
    rw [← List.append_assoc]
    exact ih.write bytes (hs _ _ _ (hr.write bytes))
  | flush _ ih => exact ih.flush
  | close _ ih => exact ih.close

end Holds

/-- A stream has become another by receiving a text, and the target has got it all behind what it
held before, if that is known. -/
structure Delivers (s : OutStream) (d : Disk) (t : Text) (s' : OutStream) (d' : Disk) :
    Prop where
  receives : s.Receives d s' d' t
  contents : ∀ before, s.Holds d before → s'.contents d' = before ++ t

/-- Closing a stream that never fails delivers what it has received. -/
theorem Receives.delivers_close (hs : s.NeverFails d) (hr : s.Receives d s' d' t) :
    s.Delivers d t (s'.close d').1 (s'.close d').2 :=
  ⟨hr.close, fun _ h => (h.receives hs hr).contents_close⟩

end OutStream

namespace WriterCall

open Writing

variable {w : Writing}

/-! ### How much a writer holds -/

/-- A call that returns leaves fewer bytes than the writer may hold. -/
theorem lt_capacity_of_ok {call : WriterCall} (hcall : call.isClose = false)
    (hn : w.writer.capacity ≠ 0) (h : (call.action.outcome w).1 = .ok ()) :
    (call.action.outcome w).2.writer.pending.length < w.writer.capacity := by
  have ho : call.action.outcome w = (.ok (), (call.action.outcome w).2) := Prod.ext h rfl
  cases call with
  | write s => exact lt_capacity_of_write_ok hn ho
  | print vs => exact lt_capacity_of_write_ok hn ho
  | flush =>
    rw [(good_of_flush_ok ho).2]
    exact Nat.pos_of_ne_zero hn
  | close => cases hcall

/-- A writer that holds fewer bytes than it may does so after a row of calls that return. -/
theorem lt_capacity_each {calls : List WriterCall} (hc : .close ∉ calls)
    (hn : w.writer.capacity ≠ 0) (hw : w.writer.pending.length < w.writer.capacity)
    (h : ∀ result ∈ (Action.each action calls w).1, result = .ok ()) :
    (Action.each action calls w).2.writer.pending.length < w.writer.capacity := by
  induction calls generalizing w with
  | nil => exact hw
  | cons call calls ih =>
    obtain ⟨hcall, hcalls⟩ := notMem_close_cons.1 hc
    obtain ⟨h₁, h₂⟩ := List.forall_mem_cons.1 h
    have hk : (call.action.outcome w).2.writer.capacity = w.writer.capacity :=
      capacity_each [call] w
    have hlt := lt_capacity_of_ok hcall hn h₁
    rw [← hk] at hn hlt ⊢
    exact ih hcalls hn hlt h₂

end WriterCall

namespace Writing

open WriterCall

variable {L : Ledger} {t : Text} {w : Writing}

/-! ### To the end -/

/-- A block that uses a writer ends with its being closed, which delivers what the block has
written, however the block ends. -/
theorem withClosing_close (hL : L.Healthy) {q : OutStream → Disk → Prop}
    (hq : ∀ s d, L.holds s d t → q (s.close d).1 (s.close d).2) {block : Action Writing Unit}
    {w₀ : Writing} (hb : (block.outcome w₀).2 = w) (hc : w.writer.closed = false)
    (h : Accounted L t w) :
    let left := (withClosing block close).outcome w₀
    (left.1 = do let _ ← w.host.environment.settings; (block.outcome w₀).1) ∧
      q left.2.stream left.2.host.disk := by
  subst hb
  rw [outcome_withClosing]
  dsimp only
  rw [fst_close hL hc h]
  refine ⟨?_, of_close hL hq hc h⟩
  cases (block.outcome w₀).2.host.environment.settings <;> rfl

/-- Through a writer on a stream that never fails, some of the texts that are written are received
by the stream, and the writer holds the rest: nothing after a flush, and fewer bytes than it may
hold after each call that returns. All calls return, apart from those that hand on bytes because
they are too many and those that close the writer, which need well-formed settings. Whether the
writer is closed, is dropped or is used by a block that ends, all texts are then delivered. -/
theorem received_append_pending (name : Text) (capacity : Nat) (s : OutStream) (host : Host)
    (hs : s.NeverFails host.disk) (calls : List WriterCall) (hcalls : .close ∉ calls) :
    let w₀ : Writing := ⟨.opened name capacity, s, host⟩
    let w := after calls w₀
    let settings := host.environment.settings
    w.writer.closed = false ∧
      (∃ received, received ++ w.writer.pending = written calls ∧
        s.Receives host.disk w.stream w.host.disk received ∧
        ∀ before, s.Holds host.disk before → w.stream.Holds w.host.disk (before ++ received)) ∧
      (∀ call : WriterCall, call.isClose = false →
        (call.action.outcome w).1 = (if call.Traces w then settings.map fun _ => () else .ok ()) ∧
          (capacity ≠ 0 → (call.action.outcome w).1 = .ok () →
            (call.action.outcome w).2.writer.pending.length < capacity)) ∧
      (∀ found, settings = .ok found →
        (∀ result ∈ (Action.each action calls w₀).1, result = .ok ()) ∧
          (capacity ≠ 0 → w.writer.pending.length < capacity)) ∧
      (flush.outcome w).2.writer.pending = [] ∧
      (let closed := close.outcome w;
        closed.1 = settings.map (fun _ => ()) ∧
          s.Delivers host.disk (written calls) closed.2.stream closed.2.host.disk) ∧
      ((drop.outcome w).1 = .ok () ∧
        s.Delivers host.disk (written calls) w.dropped.stream w.dropped.host.disk) ∧
      ∀ block : Action Writing Unit, (block.outcome w₀).2 = w →
        let left := (withClosing block close).outcome w₀
        (left.1 = do let _ ← settings; (block.outcome w₀).1) ∧
          s.Delivers host.disk (written calls) left.2.stream left.2.host.disk := by
  intro w₀ w settings
  -- the ledger is what is done to the stream itself, so it is there for every stream
  have hL : (Ledger.receiving s host.disk).Healthy := Ledger.healthy_receiving hs
  let q : OutStream → Disk → Prop := s.Delivers host.disk (written calls)
  have hq : ∀ s' d', s.Receives host.disk s' d' (written calls) →
      q (s'.close d').1 (s'.close d').2 := fun _ _ hr => hr.delivers_close hs
  have h₀ : Accounted (.receiving s host.disk) [] w₀ := ⟨[], [], rfl, .refl, fun _ => rfl⟩
  have hw : Accounted (.receiving s host.disk) (written calls) w := accounted_each calls rfl h₀
  have hc : w.writer.closed = false :=
    Bool.eq_false_iff.2 fun h => ((closed_after calls w₀).1 h).elim Bool.false_ne_true hcalls
  have he : w.host.environment = host.environment := environment_each calls w₀
  have hk : w.writer.capacity = capacity := capacity_each calls w₀
  refine ⟨hc, ?_, fun call hcall => ⟨?_, fun hn ho => ?_⟩, fun found hf => ?_, ?_, ⟨?_, ?_⟩, ?_,
    fun block hb => ?_⟩
  · -- the rest is what the writer holds, since the stream has not failed
    obtain ⟨received, rest, ht, hr, hp⟩ := hw
    obtain rfl := hp (hs _ _ _ hr)
    exact ⟨received, ht, hr, fun before h => h.receives hs hr⟩
  · rw [fst_outcome_action hL hc hw, he]
  · rw [← hk] at hn ⊢
    exact lt_capacity_of_ok hcall hn ho
  · have ho := (sound_each hL calls hcalls ⟨rfl, h₀, found, hf⟩).1
    exact ⟨ho, fun hn => lt_capacity_each hcalls hn (Nat.pos_of_ne_zero hn) ho⟩
  · exact (good_of_flush_ok (Prod.ext (flush_eq_ok hL hc hw) rfl)).2
  · rw [fst_close hL hc hw, he]
  · exact of_close (q := q) hL hq hc hw
  · exact of_drop (q := q) hL hq hc hw
  · have hb' := withClosing_close (q := q) hL hq hb hc hw
    rwa [he] at hb'

/-- Four bytes through a buffer of three, to a sink and to the end of a file: the first three are
handed on as they come, and the last one as the writer is closed, is dropped or leaves a block. -/
theorem received_append_pending_four :
    let calls : List WriterCall := [.write [1, 2, 3], .write [4]]
    let host := Host.start ⟨none, none⟩ (Disk.fresh.put [[0x66]] (.file [0])) none
    let closed := close.outcome (after calls ⟨.opened [] 3, .toSink none false, host⟩)
    let dropped := (after calls ⟨.opened [] 3, .toPath [[0x66]] true, host⟩).dropped
    let left := (withClosing (calls.forM action) close).outcome
      ⟨.opened [] 3, .toPath [[0x66]] true, host⟩
    ((OutStream.toSink none false).NeverFails host.disk ∧
      (OutStream.toPath [[0x66]] true).NeverFails host.disk ∧ .close ∉ calls) ∧
      closed.2.stream.contents closed.2.host.disk = [1, 2, 3, 4] ∧
      dropped.stream.contents dropped.host.disk = [0, 1, 2, 3, 4] ∧
      left.1 = .ok () ∧ left.2.stream.contents left.2.host.disk = [0, 1, 2, 3, 4] := by
  intro calls host
  have hcalls : WriterCall.close ∉ calls := by simp [calls]
  have hsink : (OutStream.toSink none false).NeverFails host.disk := OutStream.neverFails_toSink _
  have hfile : OutStream.Filed host.disk [[0x66]] (.toPath [[0x66]] true) host.disk [0] :=
    OutStream.filed_toPath rfl true (.inl rfl)
  obtain ⟨-, -, -, -, -, ⟨-, hclose⟩, -⟩ :=
    received_append_pending [] 3 (.toSink none false) host hsink calls hcalls
  obtain ⟨-, -, -, -, -, -, ⟨-, hdropped⟩, hblock⟩ :=
    received_append_pending [] 3 (.toPath [[0x66]] true) host hfile.neverFails calls hcalls
  obtain ⟨hr, hleft⟩ := hblock (calls.forM action) rfl
  exact ⟨⟨hsink, hfile.neverFails, hcalls⟩, hclose.contents [] (.sink _ _ _),
    hdropped.contents [0] (.file hfile), hr, hleft.contents [0] (.file hfile)⟩

/-- With malformed settings, a call can raise a fault though the stream never fails: a write that
fills the buffer. -/
theorem write_raises_of_malformed_settings :
    ¬ ∀ (name : Text) (capacity : Nat) (s : OutStream) (host : Host),
      s.NeverFails host.disk → ∀ calls : List WriterCall, .close ∉ calls →
        ∀ result ∈ (Action.each action calls ⟨.opened name capacity, s, host⟩).1,
          result = .ok () := by
  intro h
  have hr := h [] 1 (.toSink none false) (.start ⟨none, some [0x78]⟩ .fresh none)
    (OutStream.neverFails_toSink _) [.write [0x61]] (by simp) _ List.mem_cons_self
  cases hr

end Writing

end ScriptBase

import ScriptBase.Proofs.Scope.Faults
import ScriptBase.Proofs.Writer.Unfailing

/-!
# Blocks that use a writer

A block that uses a writer asks for calls one after another. It may look at how each has ended
before it goes on, close the writer itself, and end with a result or a fault at any point. On a
stream that never fails, what the block has written is delivered once the block has ended, however
it has ended. With well-formed settings that is the text of the calls that returned, and the block
itself decides what leaves. With malformed settings the writer cannot trace its end, and this is a
fault unless the block has closed it before.

## Main definitions

* `ScriptBase.WriterBlock`: blocks.
* `ScriptBase.WriterBlock.action`, `ScriptBase.WriterBlock.calls`,
  `ScriptBase.WriterBlock.completed`: what a block does, the calls that it asks for, and the text of
  those that return.

## Main results

* `ScriptBase.WriterBlock.completed_eq_written`: with well-formed settings, all calls on an open
  writer return.
* `ScriptBase.WriterBlock.closing_delivers`: what is delivered and what leaves.
-/

namespace ScriptBase

/-- A block that uses a writer: it ends, or it makes a call and goes on by how the call has
ended. -/
inductive WriterBlock where
  | ends (result : Except Fault Unit)
  | call (call : WriterCall) (next : Except Fault Unit → WriterBlock)

/-- Of a row of calls with a close, those up to the first close decide what is written. -/
theorem WriterCall.written_append_close {before : List WriterCall} (h : .close ∉ before)
    (later : List WriterCall) : written (before ++ .close :: later) = written before := by
  induction before with
  | nil => rfl
  | cons call before ih =>
    obtain ⟨hcall, hbefore⟩ := notMem_close_cons.1 h
    rw [List.cons_append, written_cons_of_not_isClose hcall, written_cons_of_not_isClose hcall,
      ih hbefore]

namespace WriterBlock

open Writing WriterCall

/-- A block as an action on the writer. -/
def action : WriterBlock → Action Writing Unit
  | ends result => Action.ofExcept result
  | call c next =>
    ExceptT.mk fun w =>
      let (result, w) := c.action.outcome w
      (next result).action.outcome w

/-- The calls that a block asks for. -/
def calls : WriterBlock → Writing → List WriterCall
  | ends _, _ => []
  | call c next, w =>
    let (result, w) := c.action.outcome w
    c :: (next result).calls w

/-- The text of the calls of a block that return. -/
def completed : WriterBlock → Writing → Text
  | ends _, _ => []
  | call c next, w =>
    let (result, w) := c.action.outcome w
    (if result matches .ok _ then c.text else []) ++ (next result).completed w

/-- A block leaves the writer that its calls leave. -/
theorem snd_outcome_action (block : WriterBlock) (w : Writing) :
    (block.action.outcome w).2 = after (block.calls w) w := by
  induction block generalizing w with
  | ends result => simp [action, calls, after, Action.each]
  | call c next ih => exact ih _ _

/-- A block leaves its writer closed exactly if it was closed before or the block has closed it. -/
theorem closed_outcome_action (block : WriterBlock) (w : Writing) :
    (block.action.outcome w).2.writer.closed = true ↔
      w.writer.closed = true ∨ .close ∈ block.calls w := by
  rw [snd_outcome_action, closed_after]

/-- No call on a closed writer writes a text and returns. -/
theorem completed_of_closed (block : WriterBlock) {w : Writing} (hc : w.writer.closed = true) :
    block.completed w = [] := by
  induction block generalizing w with
  | ends result => rfl
  | call c next ih =>
    rw [completed, outcome_action_of_closed c hc]
    have hi := ih (if c.isClose then .ok () else .error .closedFile) hc
    cases c <;> simpa [isClose, text] using hi

variable {L : Ledger} {t : Text} {w : Writing}

/-- On a stream that does not fail and with well-formed settings, the calls of a block that return
are those that write something, up to the one that closes the writer. -/
theorem completed_eq_written (hL : L.Healthy) (block : WriterBlock) (h : Sound L t w) :
    block.completed w = written (block.calls w) := by
  induction block generalizing t w with
  | ends result => rfl
  | call c next ih =>
    have ho := outcome_action_of_sound hL c h
    have hc := WriterCall.closed_outcome_action c w
    rw [h.isOpen, Bool.false_or] at hc
    rw [completed, calls]
    generalize hleft : c.action.outcome w = left at ho hc
    obtain ⟨result, w'⟩ := left
    obtain rfl := ho
    cases hclose : c.isClose with
    | true =>
      obtain rfl := isClose_eq_true_iff.1 hclose
      rw [written_cons_of_isClose rfl]
      exact completed_of_closed (next (.ok ())) (hc.trans hclose)
    | false =>
      have hs := sound_action c hclose h
      rw [hleft] at hs
      rw [written_cons_of_not_isClose hclose]
      exact congrArg (c.text ++ ·) (ih _ hs)

/-! ### The end of a block -/

/-- A writer that has been closed by a block has closed a stream that was given what the block has
written, and closing it again does nothing. -/
theorem of_closed (hL : L.Healthy) {q : OutStream → Disk → Prop} {calls : List WriterCall}
    (hq : ∀ s d, L.holds s d (t ++ written calls) → q (s.close d).1 (s.close d).2)
    (hw : w.writer.closed = false) (h : Accounted L t w) (hc : .close ∈ calls) :
    q (after calls w).stream (after calls w).host.disk := by
  obtain ⟨before, later, rfl, hbefore⟩ := List.eq_append_cons_of_mem hc
  rw [written_append_close hbefore] at hq
  have ho : (after before w).writer.closed = false :=
    Bool.eq_false_iff.2 fun h => ((closed_after before w).1 h).elim (by simp [hw]) hbefore
  have ha : after (before ++ .close :: later) w = (close.outcome (after before w)).2 := by
    rw [after, Action.each_append]
    exact each_of_closed (closed_close _) later
  rw [ha]
  exact of_close hL hq ho (accounted_each before hw h)

/-- A block that has closed its writer leaves nothing to be done. -/
theorem withClosing_of_closed {block : Action Writing Unit}
    (hc : (block.outcome w).2.writer.closed = true) :
    (withClosing block close).outcome w = block.outcome w := by
  rw [outcome_withClosing]
  generalize block.outcome w = left at hc
  obtain ⟨result, w'⟩ := left
  dsimp only at hc ⊢
  rw [outcome_close, hc]
  rfl

/-- However a writer on a stream that never fails is handed to a block, and however the block ends,
the writer is closed then and the stream has delivered what the block has written. With well-formed
settings this is the text of the calls that returned, and what leaves is how the block has ended.
With malformed settings their fault leaves, unless the block has closed the writer. Without a writer
the block is not run, which is a fault of a wrong value. -/
theorem closing_delivers (name : Text) (capacity : Nat) (s : OutStream) (host : Host)
    (hs : s.NeverFails host.disk) (how : Handing) (block : WriterBlock) :
    let w₀ : Writing := ⟨.opened name capacity, s, host⟩
    let settings := host.environment.settings
    let ended := block.action.outcome w₀
    let left := (how.closing () (fun _ => block.action) fun _ => close).outcome w₀
    left.2.writer.closed = true ∧
      s.Delivers host.disk (written (block.calls w₀)) left.2.stream left.2.host.disk ∧
      (∀ found, settings = .ok found →
        left.1 = ended.1 ∧ written (block.calls w₀) = block.completed w₀) ∧
      (∀ fault, settings = .error fault →
        left.1 = if ended.2.writer.closed then ended.1 else .error fault) ∧
      (withOwned (none : Option File) (fun _ => block.action) fun _ => close).outcome w₀ =
        (.error .nullResource, w₀) ∧
      Fault.nullResource.kind = .value := by
  intro w₀ settings ended left
  have hL : (Ledger.receiving s host.disk).Healthy := Ledger.healthy_receiving hs
  let q : OutStream → Disk → Prop := s.Delivers host.disk (written (block.calls w₀))
  have hq : ∀ s' d', s.Receives host.disk s' d' (written (block.calls w₀)) →
      q (s'.close d').1 (s'.close d').2 := fun _ _ hr => hr.delivers_close hs
  have h₀ : Accounted (.receiving s host.disk) [] w₀ := ⟨[], [], rfl, .refl, fun _ => rfl⟩
  have hended : ended.2 = after (block.calls w₀) w₀ := block.snd_outcome_action w₀
  have hleft : left = (withClosing block.action close).outcome w₀ :=
    congrArg (fun whole => whole.outcome w₀)
      (how.closing_eq () (fun _ => block.action) fun _ => close)
  have hwritten : ∀ found, settings = .ok found →
      written (block.calls w₀) = block.completed w₀ :=
    fun found hf => (completed_eq_written hL block ⟨rfl, h₀, found, hf⟩).symm
  have hclosed : left.2.writer.closed = true := by
    rw [hleft, outcome_withClosing]
    exact closed_close _
  cases hc : ended.2.writer.closed with
  | true =>
    -- closing again changes nothing, so the block itself has delivered what it has written
    have hk : left = ended := hleft.trans (withClosing_of_closed hc)
    have hm : .close ∈ block.calls w₀ :=
      ((block.closed_outcome_action w₀).1 hc).resolve_left Bool.false_ne_true
    have hd := of_closed (t := []) (q := q) hL hq rfl h₀ hm
    rw [← hended, ← hk] at hd
    exact ⟨hclosed, hd, fun found hf => ⟨by rw [hk], hwritten found hf⟩,
      fun fault _ => by rw [hk]; rfl, rfl, rfl⟩
  | false =>
    -- what the block has written is still accounted for, and closing delivers it
    have hb : (block.action.outcome w₀).2 = ended.2 := rfl
    have ha : Accounted (.receiving s host.disk) (written (block.calls w₀)) ended.2 := by
      rw [hended]
      exact accounted_each _ rfl h₀
    have he : ended.2.host.environment = host.environment := by
      rw [hended]
      exact environment_each _ w₀
    obtain ⟨hr, hd⟩ := withClosing_close (q := q) hL hq hb hc ha
    rw [he] at hr
    refine ⟨hclosed, by rw [hleft]; exact hd, fun found hf => ⟨?_, hwritten found hf⟩,
      fun fault hf => ?_, rfl, rfl⟩
    · rw [hleft, hr, show host.environment.settings = .ok found from hf]
      rfl
    · rw [hleft, hr, show host.environment.settings = .error fault from hf]
      rfl

/-- A block that writes three bytes past a buffer of two, closes the writer, cannot write one more
and raises a fault of its own: the three bytes are behind those of the file, and the fault of the
block leaves. -/
theorem closing_delivers_three :
    let host := Host.start ⟨none, none⟩ (Disk.fresh.put [[0x66]] (.file [0])) none
    let s : OutStream := .toPath [[0x66]] true
    let stop : Fault := .raised .key [0x61]
    let block : WriterBlock := .call (.write [1, 2, 3]) fun _ => .call .close fun _ =>
      .call (.write [4]) fun result => .ends (result.mapError fun _ => stop)
    let left := (Handing.owner.closing () (fun _ => block.action) fun _ => close).outcome
      ⟨.opened [] 2, s, host⟩
    s.NeverFails host.disk ∧ left.1 = .error stop ∧ left.2.writer.closed = true ∧
      left.2.stream.contents left.2.host.disk = [0, 1, 2, 3] := by
  intro host s stop block
  have hfile : OutStream.Filed host.disk [[0x66]] s host.disk [0] :=
    OutStream.filed_toPath rfl true (.inl rfl)
  obtain ⟨hc, hd, hok, -⟩ := closing_delivers [] 2 s host hfile.neverFails .owner block
  have hended : (block.action.outcome ⟨.opened [] 2, s, host⟩).1 = .error stop := rfl
  have hwritten : written (block.calls ⟨.opened [] 2, s, host⟩) = [1, 2, 3] := rfl
  have hk := hd.contents [0] (.file hfile)
  rw [hwritten] at hk
  exact ⟨hfile.neverFails, (hok .default rfl).1.trans hended, hc, hk⟩

/-- With malformed settings, a fault can leave though the stream never fails and the block raises
none: the end of the writer cannot be traced. -/
theorem closing_raises_of_malformed_settings :
    ¬ ∀ (name : Text) (capacity : Nat) (s : OutStream) (host : Host), s.NeverFails host.disk →
      ∀ (how : Handing) (block : WriterBlock),
        let w₀ : Writing := ⟨.opened name capacity, s, host⟩
        ((how.closing () (fun _ => block.action) fun _ => close).outcome w₀).1 =
          (block.action.outcome w₀).1 := by
  intro h
  have he := h [] 0 (.toSink none false) (.start ⟨none, some [0x78]⟩ .fresh none)
    (OutStream.neverFails_toSink _) .reference (.ends (.ok ()))
  cases he

end WriterBlock

end ScriptBase

import ScriptBase.Proofs.Writer.Calls

/-!
# Keeping account of what is written

A ledger relates a stream to the text that it was given. Between the text that a script has written
through a writer and the text that the stream was given lie the bytes that the writer holds, as long
as the stream has not failed. A stream that has failed may lie behind by more than these. Every call
keeps this account, also the calls that raise faults and the calls after them.

## Main definitions

* `ScriptBase.Ledger`: what streams were given.
* `ScriptBase.Writing.Accounted`: the account of a writer.

## Main results

* `ScriptBase.WriterCall.accounted_each`: the account after a row of calls.
* `ScriptBase.Writing.holds_of_flush_ok`, `ScriptBase.Writing.of_close_ok`: after a flush or a close
  that returns, the stream was given everything.
* `ScriptBase.Writing.holds_dropped`: what the stream was given when the writer is dropped.
-/

namespace ScriptBase

/-- A relation between a stream, its disk and the text that the stream was given, whatever it has
made of it. Writing adds to the text, and flushing and closing leave it. -/
structure Ledger where
  holds : OutStream → Disk → Text → Prop
  write : ∀ {s d t} (bytes : Text), holds s d t →
    holds (s.write d bytes).1 (s.write d bytes).2 (t ++ bytes)
  flush : ∀ {s d t}, holds s d t → holds (s.flush d).1 (s.flush d).2 t
  close : ∀ {s d t}, holds s d t → holds (s.close d).1 (s.close d).2 t

namespace Writing

variable {L : Ledger} {t : Text} {w w' : Writing}

/-- The texts that were written make up what the stream was given and a rest, which is what the
writer holds unless the stream has failed. -/
def Accounted (L : Ledger) (t : Text) (w : Writing) : Prop :=
  ∃ given rest, given ++ rest = t ∧ L.holds w.stream w.host.disk given ∧
    (w.stream.failed = false → rest = w.writer.pending)

theorem Accounted.diagnostics (h : Accounted L t w) (s : Text) :
    Accounted L t { w with host := { w.host with diagnostics := s } } := h

/-! ### Steps -/

theorem accounted_spill (h : Accounted L t w) : Accounted L t (spill.outcome w).2 := by
  rw [outcome_spill]
  split
  · exact h
  · obtain ⟨given, rest, rfl, hl, hr⟩ := h
    have hw := L.write w.writer.pending hl
    cases hf : w.stream.failed with
    | true =>
      rw [OutStream.write_of_failed hf]
      simp only [withStream, hf, if_true]
      exact ⟨given, rest, rfl, hl, hr⟩
    | false =>
      obtain rfl := hr hf
      dsimp only
      split
      · next hf' => exact ⟨_, [], List.append_nil _, hw, fun h => absurd (h ▸ hf') (by simp)⟩
      · exact ⟨_, [], List.append_nil _, hw, fun _ => rfl⟩

theorem accounted_withPending (h : Accounted L t w) (s : Text) :
    Accounted L (t ++ s) (w.withPending (w.writer.pending ++ s)) := by
  obtain ⟨given, rest, rfl, hl, hr⟩ := h
  exact ⟨given, rest ++ s, (List.append_assoc ..).symm, hl, fun hf => by rw [hr hf]; rfl⟩

/-- A text is accounted for as soon as it is written, also if it cannot be handed on. -/
theorem accounted_write (hc : w.writer.closed = false) (h : Accounted L t w) (s : Text) :
    Accounted L (t ++ s) ((write s).outcome w).2 := by
  have hp := accounted_withPending h s
  rw [outcome_write, hc]
  simp only [Bool.false_eq_true, if_false]
  split
  · refine (Action.Keeps.bind (p := Accounted L (t ++ s)) ?_ ?_) _ hp
    · exact keeps_trace (fun _ s h => h.diagnostics s) _
    · exact fun _ _ => accounted_spill
  · exact hp

theorem accounted_flushStream (h : Accounted L t w) :
    Accounted L t (w.withStream (w.stream.flush w.host.disk)) := by
  obtain ⟨given, rest, rfl, hl, hr⟩ := h
  exact ⟨given, rest, rfl, L.flush hl, fun hf => hr (OutStream.good_of_good_flush hf)⟩

theorem accounted_flush (h : Accounted L t w) : Accounted L t (flush.outcome w).2 := by
  rw [outcome_flush]
  split
  · exact h
  · have hs := accounted_spill h
    generalize spill.outcome w = left at hs
    rcases left with ⟨_ | _, w'⟩
    · exact hs
    · exact accounted_flushStream hs

/-- Releasing a writer is accounted for if nothing is lost by it that could still be handed on. -/
theorem accounted_release (h : Accounted L t w)
    (hw : w.stream.failed = true ∨ w.writer.pending = []) :
    Accounted L t (release.outcome w).2 := by
  rw [outcome_release]
  obtain ⟨given, rest, rfl, hl, hr⟩ := h
  refine ⟨given, rest, rfl, L.close hl, fun hf => ?_⟩
  have hg : w.stream.failed = false := OutStream.good_of_good_close hf
  rcases hw with hw | hw
  · exact absurd (hw.symm.trans hg) (by simp)
  · exact (hr hg).trans hw

theorem accounted_close (hc : w.writer.closed = false) (h : Accounted L t w) :
    Accounted L t (close.outcome w).2 := by
  refine close_of_release_flush hc (fun _ s h => h.diagnostics s) ?_
  refine accounted_release (accounted_flush h) ?_
  rcases hf : flush.outcome w with ⟨fault | _, w'⟩
  · exact .inl (failed_of_flush_error hc hf).2
  · exact .inr (good_of_flush_ok hf).2

/-! ### What the stream was given -/

/-- A flush that returns has flushed a stream that was given all that was written. -/
theorem of_flush_ok {q : OutStream → Disk → Prop}
    (hq : ∀ s d, L.holds s d t → q (s.flush d).1 (s.flush d).2) (h : Accounted L t w)
    (hf : flush.outcome w = (.ok (), w')) : q w'.stream w'.host.disk := by
  rw [outcome_flush] at hf
  split at hf
  · cases hf
  · have hs := accounted_spill h
    rcases hspill : spill.outcome w with ⟨_ | _, v⟩
    · simp [hspill] at hf
    · rw [hspill] at hf hs
      dsimp only at hf
      split at hf
      · cases hf
      · next hfailed =>
        -- the stream had not failed before the flush, so what is missing is what was held: nothing
        obtain ⟨given, rest, rfl, hl, hr⟩ := hs
        have hg : v.stream.failed = false := OutStream.good_of_good_flush (by simpa using hfailed)
        rw [hr hg, pending_of_spill_ok hspill, List.append_nil] at hq
        cases hf
        exact hq _ _ hl

/-- After a flush that returns, the stream was given all that was written. -/
theorem holds_of_flush_ok (h : Accounted L t w) (hf : flush.outcome w = (.ok (), w')) :
    L.holds w'.stream w'.host.disk t :=
  of_flush_ok (q := fun s d => L.holds s d t) (fun _ _ => L.flush) h hf

/-- Closing an open writer, with a last flush that returns, closes a stream that was given all that
was written. -/
theorem of_close_of_flush_ok {q : OutStream → Disk → Prop}
    (hq : ∀ s d, L.holds s d t → q (s.close d).1 (s.close d).2) (hc : w.writer.closed = false)
    (h : Accounted L t w) (hf : (flush.outcome w).1 = .ok ()) :
    q (close.outcome w).2.stream (close.outcome w).2.host.disk := by
  refine close_of_release_flush (p := fun w => q w.stream w.host.disk) hc (fun _ _ h => h) ?_
  have hl : L.holds (flush.outcome w).2.stream (flush.outcome w).2.host.disk t :=
    holds_of_flush_ok h (Prod.ext hf rfl)
  rw [outcome_release]
  exact hq _ _ hl

/-- A close of an open writer that returns has closed a stream that was given all that was
written. -/
theorem of_close_ok {q : OutStream → Disk → Prop}
    (hq : ∀ s d, L.holds s d t → q (s.close d).1 (s.close d).2) (hc : w.writer.closed = false)
    (h : Accounted L t w) (hw : (close.outcome w).1 = .ok ()) :
    q (close.outcome w).2.stream (close.outcome w).2.host.disk := by
  obtain ⟨w', hf, -⟩ := flush_release_of_close_ok hc hw
  exact of_close_of_flush_ok hq hc h (congrArg Prod.fst hf)

/-- After a close of an open writer that returns, the stream was given all that was written. -/
theorem holds_of_close_ok (hc : w.writer.closed = false) (h : Accounted L t w)
    (hw : (close.outcome w).1 = .ok ()) :
    L.holds (close.outcome w).2.stream (close.outcome w).2.host.disk t :=
  of_close_ok (q := fun s d => L.holds s d t) (fun _ _ => L.close) hc h hw

/-- The stream of a writer was given all bytes unless it has failed. -/
def HandedOver (L : Ledger) (t : Text) (w : Writing) : Prop :=
  ∃ given rest, given ++ rest = t ∧ L.holds w.stream w.host.disk given ∧
    (w.stream.failed = false → rest = [])

theorem handedOver_handOver (hc : w.writer.closed = false) (h : Accounted L t w) :
    HandedOver L t (handOver.outcome w).2 := by
  rw [outcome_handOver, hc]
  obtain ⟨given, rest, rfl, hl, hr⟩ := h
  split
  · next hp =>
    exact ⟨given, rest, rfl, hl, fun hf => (hr hf).trans (by simpa using hp)⟩
  · have hw := L.flush (L.write w.writer.pending hl)
    have hu : HandedOver L (given ++ rest) ((w.withStream (w.stream.write w.host.disk
        w.writer.pending)).withStream ((w.stream.write w.host.disk w.writer.pending).1.flush
          (w.stream.write w.host.disk w.writer.pending).2)) := by
      cases hf : w.stream.failed with
      | true =>
        rw [OutStream.write_of_failed hf, OutStream.flush_of_failed hf]
        exact ⟨given, rest, rfl, hl, fun hf' => absurd (hf.symm.trans hf') (by simp)⟩
      | false =>
        obtain rfl := hr hf
        exact ⟨given ++ w.writer.pending, [], List.append_nil _, hw, fun _ => rfl⟩
    dsimp only
    split
    · exact keeps_trace (p := HandedOver L (given ++ rest)) (fun _ _ h => h) _ _ hu
    · exact hu

/-- Nothing is left to be done for a writer that is dropped when it is closed. -/
theorem outcome_drop_of_closed (hc : w.writer.closed = true) : drop.outcome w = (.ok (), w) := by
  simp [outcome_drop, outcome_handOver, hc]

theorem dropped_of_closed (hc : w.writer.closed = true) : w.dropped = w :=
  congrArg Prod.snd (outcome_drop_of_closed hc)

/-- An open writer that is dropped hands over what it holds before its stream ends. If its process
ends with that, the stream is left as it is. -/
theorem outcome_drop_of_open (hc : w.writer.closed = false) :
    drop.outcome w =
      match handOver.outcome w with
      | (.error fault, w') => (.error fault, w')
      | (.ok _, w') => (.ok (), w'.withStream (w'.stream.close w'.host.disk)) := by
  have hc' := (unaffected_closed false).keeps_handOver w hc
  rw [outcome_drop]
  generalize handOver.outcome w = left at hc'
  rcases left with ⟨fault | _, w'⟩
  · rfl
  · dsimp only at hc' ⊢
    rw [if_neg (by simp [hc'])]

/-- If the stream has not failed, nothing is traced as a writer ends. -/
theorem handOver_eq_ok (h : (handOver.outcome w).2.stream.failed = false) :
    (handOver.outcome w).1 = .ok () := by
  rw [outcome_handOver] at h ⊢
  split
  · rfl
  next hp =>
  rw [if_neg hp] at h
  dsimp only at h ⊢
  split
  · next hf =>
    rw [if_pos hf] at h
    exact absurd (hf.symm.trans h) (by simp)
  · rfl

/-- When a writer is dropped, what it holds is given to the stream unless that has failed. -/
theorem holds_dropped (h : Accounted L t w) :
    ∃ given rest, given ++ rest = t ∧ L.holds w.dropped.stream w.dropped.host.disk given ∧
      (w.writer.closed = false → w.dropped.stream.failed = false → rest = []) := by
  cases hc : w.writer.closed with
  | true =>
    obtain ⟨given, rest, ht, hl, -⟩ := h
    rw [dropped_of_closed hc]
    exact ⟨given, rest, ht, hl, fun h => absurd h (by simp)⟩
  | false =>
    have hh := handedOver_handOver hc h
    rw [dropped, outcome_drop_of_open hc]
    generalize handOver.outcome w = left at hh
    obtain ⟨given, rest, ht, hl, hr⟩ := hh
    rcases left with ⟨fault | _, w'⟩
    · exact ⟨given, rest, ht, hl, fun _ => hr⟩
    · exact ⟨given, rest, ht, L.close hl, fun _ hf => hr (OutStream.good_of_good_close hf)⟩

end Writing

namespace WriterCall

open Writing

variable {L : Ledger} {t : Text} {w : Writing}

/-- Each call on an open writer accounts for the text that it writes. -/
theorem accounted_action (call : WriterCall) (hc : w.writer.closed = false)
    (h : Accounted L t w) : Accounted L (t ++ call.text) (call.action.outcome w).2 := by
  cases call with
  | write s => exact accounted_write hc h s
  | print vs => exact accounted_write hc h (printedLine vs)
  | flush =>
    rw [text, List.append_nil]
    exact accounted_flush h
  | close =>
    rw [text, List.append_nil]
    exact accounted_close hc h

/-- Calls on a closed writer change nothing, however many there are. -/
theorem each_of_closed (hc : w.writer.closed = true) :
    (calls : List WriterCall) → (Action.each action calls w).2 = w
  | [] => rfl
  | call :: calls => by
    simp only [Action.each, outcome_action_of_closed call hc]
    exact each_of_closed hc calls

/-- A row of calls accounts for the texts that are written until the writer is closed. -/
theorem accounted_each (calls : List WriterCall) (hc : w.writer.closed = false)
    (h : Accounted L t w) :
    Accounted L (t ++ written calls) (Action.each action calls w).2 := by
  induction calls generalizing t w with
  | nil =>
    rw [written_nil, List.append_nil]
    exact h
  | cons call calls ih =>
    have ha := accounted_action call hc h
    have hc' := closed_outcome_action call w
    rw [hc, Bool.false_or] at hc'
    cases hcall : call.isClose with
    | true =>
      obtain rfl := isClose_eq_true_iff.1 hcall
      rw [written_cons_of_isClose hcall]
      simp only [Action.each]
      rw [each_of_closed (hc'.trans hcall)]
      exact ha
    | false =>
      rw [written_cons_of_not_isClose hcall, ← List.append_assoc]
      exact ih (hc'.trans hcall) ha

end WriterCall

end ScriptBase

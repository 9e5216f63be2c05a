import ScriptBase.Proofs.Reader.Calls
import ScriptBase.Proofs.Reader.Lines
import Mathlib.Logic.Function.Iterate

/-!
# Reading up to a failure

A stream may deliver some bytes and fail behind them, as often as it is asked for more. This module
says for every call which of these bytes it leaves and whether it has to read past them. Each call
that has to raises an input fault, with one exception: reading all bytes raises none if there is a
byte left, and returns what is left as if the stream ended there. Only the next call finds the
failure.

## Main definitions

* `ScriptBase.InStream.FailsAfter`: a stream that fails behind given bytes.
* `ScriptBase.InputCall.leaves`: the bytes that a call leaves.
* `ScriptBase.InputCall.PassesEnd`: whether a call has to read past the bytes that are left.

## Main results

* `ScriptBase.InputCall.raises_iff_passesEnd`: which calls raise an input fault.
* `ScriptBase.InputCall.readAll_truncates`: a call that reads past the bytes and raises none.
-/

namespace ScriptBase

open Ascii (newline)

namespace Text

variable {s line rest : Text}

theorem iterate_afterLine_nil (n : Nat) : afterLine^[n] [] = [] :=
  Function.iterate_fixed rfl n

theorem count_newline_of_none (h : s.breakLine = none) : s.count newline = 0 :=
  List.count_eq_zero.2 (breakLine_eq_none_iff.1 h)

theorem count_newline_of_some (h : s.breakLine = some (line, rest)) :
    s.count newline = rest.count newline + 1 := by
  rw [eq_of_breakLine_eq_some h, List.count_append, List.count_cons_self,
    List.count_eq_zero.2 (newline_notMem_of_breakLine h), Nat.zero_add]

/-- Nothing is left behind more newlines than there are. -/
theorem iterate_afterLine_eq_nil {n : Nat} (h : s.count newline < n) : afterLine^[n] s = [] := by
  induction n generalizing s with
  | zero => exact absurd h (Nat.not_lt_zero _)
  | succ n ih =>
    rw [Function.iterate_succ_apply]
    rcases hb : s.breakLine with _ | ⟨line, rest⟩
    · rw [afterLine_of_none hb, iterate_afterLine_nil]
    · rw [count_newline_of_some hb] at h
      rw [afterLine_of_some hb]
      exact ih (Nat.lt_of_succ_lt_succ h)

end Text

namespace InStream

/-- A stream *fails after* the bytes that it holds, if it has not got any others and no end. -/
structure FailsAfter (rest : Text) (s : InStream) : Prop where
  supply : s.supply = .fails
  held : s.held = rest
  ended : s.ended = false
  rest_of_failed : s.failed = true → rest = []

variable {rest : Text} {s : InStream}

theorem failsAfter_ofText (s : Text) : FailsAfter s (ofText s true) := ⟨rfl, rfl, rfl, nofun⟩

namespace FailsAfter

theorem visible_eq (h : FailsAfter rest s) (d : Disk) : s.visible d = rest := by
  simp [visible, ahead, h.supply, h.held]

theorem skip (h : FailsAfter rest s) {n : Nat} (hn : n ≤ rest.length) (d : Disk) :
    s.skip d n = { s with held := rest.drop n } := by
  rw [InStream.skip, h.held, if_pos hn]

theorem skipAll (h : FailsAfter rest s) (d : Disk) : s.skipAll d = { s with held := [] } := by
  rw [InStream.skipAll, h.visible_eq, h.skip (Nat.le_refl _), List.drop_length]

theorem not_failed (h : FailsAfter rest s) (hr : rest ≠ []) : s.failed = false :=
  Bool.eq_false_iff.2 fun hf => hr (h.rest_of_failed hf)

/-- A line with a newline is read as from any other stream. One without a newline is lost to the
failure behind it. -/
theorem getLine (h : FailsAfter rest s) (d : Disk) :
    (s.getLine d).1 = rest.breakLine.map Prod.fst ∧
      (rest.breakLine = none → (s.getLine d).2.failed = true) ∧
      FailsAfter rest.afterLine (s.getLine d).2 := by
  rcases hb : rest.breakLine with _ | ⟨line, rest'⟩
  · rw [Text.afterLine_of_none hb]
    cases hf : s.failed with
    | true =>
      rw [getLine_of_done (by simp [hf])]
      obtain rfl := h.rest_of_failed hf
      exact ⟨rfl, fun _ => hf, h⟩
    | false =>
      have hg : s.getLine d = (none, { s with held := [], failed := true }) := by
        simp [InStream.getLine, h.ended, hf, h.visible_eq, hb, failsBehind, h.supply, h.skipAll]
      rw [hg]
      exact ⟨rfl, fun _ => rfl, h.supply, rfl, h.ended, fun _ => rfl⟩
  · rw [Text.afterLine_of_some hb]
    have he := Text.eq_of_breakLine_eq_some hb
    have hf : s.failed = false := h.not_failed (by simp [he])
    have hn : line.length + 1 ≤ rest.length := by simp [he]
    have hd : rest.drop (line.length + 1) = rest' := Text.drop_of_breakLine_eq_some hb
    have hg : s.getLine d = (some line, { s with held := rest' }) := by
      simp only [InStream.getLine, h.ended, hf, h.visible_eq, hb, h.skip hn, hd, Bool.or_self,
        Bool.false_eq_true, if_false]
    rw [hg]
    exact ⟨rfl, fun hn => absurd hn (by simp), h.supply, rfl, h.ended,
      fun hf' => absurd (hf.symm.trans hf') (by simp)⟩

/-- Reading all bytes finds the failure only if there are none. -/
theorem getAll_eq (h : FailsAfter rest s) (d : Disk) :
    (s.getAll d).1 = rest ∧ ((s.getAll d).2.failed = true ↔ rest = []) ∧
      FailsAfter [] (s.getAll d).2 := by
  cases hf : s.failed with
  | true =>
    obtain rfl := h.rest_of_failed hf
    have hg : s.getAll d = ([], s) := by simp [getAll, hf]
    rw [hg]
    exact ⟨rfl, by simp [hf], h⟩
  | false =>
    by_cases hr : rest = []
    · have hg : s.getAll d = ([], { s with failed := true }) := by
        simp [getAll, h.ended, hf, h.visible_eq, hr, failsBehind, h.supply]
      rw [hg, hr]
      exact ⟨rfl, by simp, h.supply, h.held.trans hr, h.ended, fun _ => rfl⟩
    · have hg : s.getAll d = (rest, { s with held := [] }) := by
        simp [getAll, h.ended, hf, h.visible_eq, hr, h.skipAll]
      rw [hg]
      exact ⟨rfl, by simp [hf, hr], h.supply, rfl, h.ended, fun _ => rfl⟩

end FailsAfter

end InStream

/-! ### Readers -/

namespace Reader

open InStream

variable {r : Reader} {rest : Text} {s : InStream}

/-- A line can be read exactly if there is a newline. -/
theorem readLine_of_failsAfter (hr : r.closed = false) (h : FailsAfter rest s) (d : Disk) :
    ((r.readLine d).outcome s).1 = rest.breakLine.elim (.error (.readFailed r.name))
        (fun cut => .ok (some cut.1.dropReturn)) ∧
      FailsAfter rest.afterLine ((r.readLine d).outcome s).2 := by
  obtain ⟨hl, hf, hs⟩ := h.getLine d
  rw [outcome_readLine hr, hl]
  refine ⟨?_, hs⟩
  rcases hb : rest.breakLine with _ | cut
  · simp [hf hb]
  · rfl

/-- Lines can be read exactly as far as there are newlines. -/
theorem takeLines_of_failsAfter (hr : r.closed = false) (d : Disk) (n : Nat)
    (h : FailsAfter rest s) :
    (if rest.count newline < n then ((r.takeLines d n).outcome s).1 = .error (.readFailed r.name)
      else ∃ lines, ((r.takeLines d n).outcome s).1 = .ok lines) ∧
      FailsAfter (Text.afterLine^[n] rest) ((r.takeLines d n).outcome s).2 := by
  induction n generalizing rest s with
  | zero => exact ⟨by simpa using ⟨[], rfl⟩, h⟩
  | succ n ih =>
    obtain ⟨h₁, h₂⟩ := readLine_of_failsAfter hr h d
    rw [outcome_takeLines_succ, Function.iterate_succ_apply]
    generalize (r.readLine d).outcome s = left at h₁ h₂
    obtain ⟨result, s'⟩ := left
    rcases hb : rest.breakLine with _ | ⟨line, rest'⟩
    · rw [hb, Option.elim_none] at h₁
      rw [Text.afterLine_of_none hb] at h₂
      obtain rfl := h₁
      rw [Text.count_newline_of_none hb, Text.afterLine_of_none hb, Text.iterate_afterLine_nil]
      exact ⟨by simp, h₂⟩
    · rw [hb, Option.elim_some] at h₁
      rw [Text.afterLine_of_some hb] at h₂
      obtain rfl := h₁
      rw [Text.count_newline_of_some hb, Text.afterLine_of_some hb]
      obtain ⟨h₃, h₄⟩ := ih h₂
      refine ⟨?_, h₄⟩
      simp only [Nat.add_lt_add_iff_right]
      split
      · next hn =>
        rw [if_pos hn] at h₃
        simp [h₃, Except.map]
      · next hn =>
        rw [if_neg hn] at h₃
        obtain ⟨lines, h₃⟩ := h₃
        exact ⟨_, by rw [h₃]; rfl⟩

end Reader

/-! ### Calls -/

namespace InputCall

open InStream

/-- The bytes that a call leaves of those that are left before a failure. -/
def leaves (rest : Text) : InputCall → Text
  | readLine _ | ask _ => rest.afterLine
  | takeLines _ n => Text.afterLine^[n] rest
  | readLines _ | readAll _ => []

/-- The bytes that a row of calls leaves. -/
def leftBy (calls : List InputCall) (s : Text) : Text := calls.foldl leaves s

/-- Whether a call has to read past the bytes that are left: for a line if there is no newline, for
more lines than there are newlines, and for all lines and all bytes in any case. -/
def PassesEnd (rest : Text) : InputCall → Prop
  | readLine _ | ask _ => newline ∉ rest
  | takeLines _ n => rest.count newline < n
  | readLines _ | readAll _ => True

/-- Whether a call reads all bytes. -/
def isReadAll : InputCall → Bool
  | readAll _ => true
  | _ => false

/-- A result that is an input or output fault. -/
def IsIOFault {α : Type} (result : Except Fault α) : Prop :=
  ∃ fault, result = .error fault ∧ fault.kind = .io

variable {α β : Type} {rest : Text} {s : Dialogue}

theorem isIOFault_error {fault : Fault} (h : fault.kind = .io) :
    IsIOFault (.error fault : Except Fault α) := ⟨fault, rfl, h⟩

theorem not_isIOFault_ok (a : α) : ¬ IsIOFault (.ok a : Except Fault α) := by
  rintro ⟨fault, h, -⟩
  cases h

/-- A result that is a fault where there is no newline and something else where there is one. -/
theorem isIOFault_breakLine_iff {fault : Fault} (hf : fault.kind = .io) (f : Text × Text → α)
    (rest : Text) :
    IsIOFault (rest.breakLine.elim (.error fault) fun cut => .ok (f cut)) ↔ newline ∉ rest := by
  rcases hb : rest.breakLine with _ | cut
  · exact iff_of_true (isIOFault_error hf) (Text.breakLine_eq_none_iff.1 hb)
  · have hn : newline ∈ rest := by simp [Text.eq_of_breakLine_eq_some hb]
    exact iff_of_false (not_isIOFault_ok _) (not_not_intro hn)

/-- Wrapping a result keeps its fault. -/
theorem isIOFault_map (f : α → β) (result : Except Fault α) :
    IsIOFault (result.map f) ↔ IsIOFault result := by
  cases result with
  | error fault => simp [IsIOFault, Except.map]
  | ok a => exact iff_of_false (not_isIOFault_ok _) (not_isIOFault_ok _)

/-- A question is answered, or blames the failure, as a line is read. -/
theorem ask_of_failsAfter (prompt : Text) (h : FailsAfter rest s.input) :
    (IsIOFault ((ask prompt).action.outcome s).1 ↔ newline ∉ rest) ∧
      FailsAfter rest.afterLine ((ask prompt).action.outcome s).2.input := by
  obtain ⟨hl, hf, hs⟩ := h.getLine (s.prompted prompt).disk
  have ha : ((Dialogue.ask prompt).outcome s).1 =
      rest.breakLine.elim (.error .inputFailed) fun cut => .ok cut.1.dropReturn := by
    rw [Dialogue.outcome_ask, hl]
    rcases hb : rest.breakLine with _ | cut
    · simp [hf hb]
    · rfl
  rw [action, Action.outcome_map, isIOFault_map, ha]
  refine ⟨isIOFault_breakLine_iff rfl _ rest, ?_⟩
  rw [Dialogue.outcome_ask]
  exact hs

theorem readLine_of_failsAfter (name : Text) (h : FailsAfter rest s.input) :
    (IsIOFault ((readLine name).action.outcome s).1 ↔ newline ∉ rest) ∧
      FailsAfter rest.afterLine ((readLine name).action.outcome s).2.input := by
  obtain ⟨hl, hs⟩ := Reader.readLine_of_failsAfter (r := .opened name) rfl h s.disk
  rw [action, Action.outcome_map, isIOFault_map, Dialogue.outcome_onInput, hl]
  exact ⟨isIOFault_breakLine_iff rfl _ rest, hs⟩

theorem takeLines_of_failsAfter (name : Text) (n : Nat) (h : FailsAfter rest s.input) :
    (IsIOFault ((takeLines name n).action.outcome s).1 ↔ rest.count newline < n) ∧
      FailsAfter (Text.afterLine^[n] rest) ((takeLines name n).action.outcome s).2.input := by
  obtain ⟨h₁, h₂⟩ := Reader.takeLines_of_failsAfter (r := .opened name) rfl s.disk n h
  rw [action, Action.outcome_map, Dialogue.outcome_onInput]
  refine ⟨?_, h₂⟩
  split at h₁
  · next hn =>
    rw [h₁]
    exact iff_of_true (isIOFault_error rfl) hn
  · next hn =>
    obtain ⟨lines, h₁⟩ := h₁
    rw [h₁]
    exact iff_of_false (not_isIOFault_ok _) hn

/-- There are fewer newlines than bytes and one, so reading all lines meets the failure. -/
theorem readLines_of_failsAfter (name : Text) (h : FailsAfter rest s.input) :
    IsIOFault ((readLines name).action.outcome s).1 ∧
      FailsAfter [] ((readLines name).action.outcome s).2.input := by
  have hn : rest.count newline < rest.length + 1 := Nat.lt_succ_of_le List.count_le_length
  obtain ⟨h₁, h₂⟩ := takeLines_of_failsAfter name (rest.length + 1) h
  rw [Text.iterate_afterLine_eq_nil hn] at h₂
  rw [← h.visible_eq s.disk] at h₁ h₂
  exact ⟨h₁.2 (by rwa [h.visible_eq]), h₂⟩

/-- Reading all bytes raises a fault only if there are none. -/
theorem outcome_readAll_of_failsAfter (name : Text) (h : FailsAfter rest s.input) :
    ((readAll name).action.outcome s).1 =
        (if rest = [] then .error (.readFailed name) else .ok (.text rest)) ∧
      FailsAfter [] ((readAll name).action.outcome s).2.input := by
  obtain ⟨h₁, hf, h₂⟩ := h.getAll_eq s.disk
  rw [action, Action.outcome_map, Dialogue.outcome_onInput, Reader.outcome_readAll rfl]
  refine ⟨?_, h₂⟩
  by_cases hr : rest = []
  · rw [if_pos (hf.2 hr), if_pos hr]
    rfl
  · rw [if_neg (mt hf.1 hr), if_neg hr, h₁]
    rfl

/-- What a call does to a stream that fails behind the bytes that are left. -/
theorem action_of_failsAfter (call : InputCall) (h : FailsAfter rest s.input) :
    (IsIOFault (call.action.outcome s).1 ↔
        call.PassesEnd rest ∧ ¬ (call.isReadAll = true ∧ rest ≠ [])) ∧
      FailsAfter (call.leaves rest) (call.action.outcome s).2.input := by
  cases call with
  | readLine name => simpa [PassesEnd, isReadAll, leaves] using readLine_of_failsAfter name h
  | takeLines name n => simpa [PassesEnd, isReadAll, leaves] using takeLines_of_failsAfter name n h
  | readLines name => simpa [PassesEnd, isReadAll, leaves] using readLines_of_failsAfter name h
  | readAll name =>
    obtain ⟨h₁, h₂⟩ := outcome_readAll_of_failsAfter name h
    refine ⟨?_, h₂⟩
    rw [h₁]
    by_cases hr : rest = []
    · rw [if_pos hr]
      exact iff_of_true (isIOFault_error rfl) ⟨trivial, fun hn => hn.2 hr⟩
    · rw [if_neg hr]
      exact iff_of_false (not_isIOFault_ok _) fun hn => hn.2 ⟨rfl, hr⟩
  | ask prompt => simpa [PassesEnd, isReadAll, leaves] using ask_of_failsAfter prompt h

theorem failsAfter_after (calls : List InputCall) (h : FailsAfter rest s.input) :
    FailsAfter (leftBy calls rest) (after calls s).input := by
  induction calls generalizing rest s with
  | nil => exact h
  | cons call calls ih => exact ih (action_of_failsAfter call h).2

/-- On a stream that fails behind some bytes, after any row of calls, a call raises an input fault
exactly if it has to read past the bytes that are left, unless it reads all bytes and there are
some. In that case it returns them. -/
theorem raises_iff_passesEnd (s : Text) (output : OutStream) (disk : Disk)
    (calls : List InputCall) (call : InputCall) :
    let streams := after calls ⟨.ofText s true, output, disk⟩
    let rest := leftBy calls s
    (IsIOFault (call.action.outcome streams).1 ↔
        call.PassesEnd rest ∧ ¬ (call.isReadAll = true ∧ rest ≠ [])) ∧
      ∀ name, ((readAll name).action.outcome streams).1 =
        if rest = [] then .error (.readFailed name) else .ok (.text rest) := by
  intro streams rest
  have h : FailsAfter rest streams.input := failsAfter_after calls (failsAfter_ofText s)
  exact ⟨(action_of_failsAfter call h).1, fun name => (outcome_readAll_of_failsAfter name h).1⟩

/-- Not every call that has to read past the bytes raises an input fault: of two bytes before a
failure, reading all bytes returns both. -/
theorem readAll_truncates :
    ¬ ∀ (s : Text) (calls : List InputCall) (call : InputCall), call.PassesEnd (leftBy calls s) →
      IsIOFault (call.action.outcome
        (after calls ⟨.ofText s true, .toSink none false, .fresh⟩)).1 := by
  intro h
  have h' : IsIOFault (.ok (.text [0x61, 0x62]) : Except Fault InputAnswer) :=
    h [0x61, 0x62] [] (.readAll []) trivial
  exact not_isIOFault_ok _ h'

end InputCall

end ScriptBase

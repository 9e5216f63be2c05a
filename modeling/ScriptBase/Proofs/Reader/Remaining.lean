import Mathlib.Logic.Function.Iterate
import ScriptBase.Proofs.Reader.Calls
import ScriptBase.Proofs.Reader.Lines

/-!
# Reading a stream that ends

A stream may offer some bytes and end behind them. Readers and questions then give the lines of
these bytes one after another, however they share them out, and afterwards readers find no more
lines and questions raise the fault of an input at its end.

## Main definitions

* `ScriptBase.InStream.Offers`: a stream that ends behind given bytes.

## Main results

* `ScriptBase.Action.each_lineAt`, `ScriptBase.Action.each_lines`: actions in a row that give one line
  after another.
* `ScriptBase.Reader.takeLines_of_offers`, `ScriptBase.Reader.readLines_of_offers`,
  `ScriptBase.Reader.readAll_of_offers`: readers.
* `ScriptBase.Dialogue.askAll_of_offers`: questions.
-/

namespace ScriptBase

namespace InStream

variable {d : Disk} {rest : Text} {s : InStream}

/-- A stream *offers* bytes if they can be read and the end is behind them. -/
structure Offers (d : Disk) (rest : Text) (s : InStream) : Prop where
  good : s.failed = false
  ends : s.failsBehind d = false
  visible_eq : s.visible d = rest
  rest_of_ended : s.ended = true → rest = []

theorem offers_ofText (d : Disk) (s : Text) : Offers d s (ofText s false) :=
  ⟨rfl, rfl, visible_ofText d s false, nofun⟩

/-- The stream of what is no directory offers the bytes that can be read there. -/
theorem offers_content {p : Path} (h : d.isDirectory p = false) :
    Offers d (d.content p) (ofPath p) where
  good := rfl
  ends := h
  visible_eq := rfl
  rest_of_ended := nofun

/-- The stream of a file offers its content. -/
theorem offers_ofPath {p : Path} {c : Text} (h : d.node? p = some (.file c)) :
    Offers d c (ofPath p) := by
  exact Disk.content_of_file h ▸ offers_content (by simp [Disk.isDirectory, h])

namespace Offers

theorem skip (h : Offers d rest s) (he : s.ended = false) (n : Nat) :
    Offers d (rest.drop n) (s.skip d n) where
  good := (failed_skip d n s).trans h.good
  ends := (failsBehind_skip d d n s).trans h.ends
  visible_eq := by rw [visible_skip, h.visible_eq]
  rest_of_ended hs := absurd ((ended_skip d n s).symm.trans hs) (by simp [he])

/-- Behind all its bytes a stream may meet its end. -/
theorem skipAll (h : Offers d rest s) (he : s.ended = false) (ended : Bool) :
    Offers d [] { s.skipAll d with ended } where
  good := (failed_skip ..).trans h.good
  ends := (failsBehind_skip d d _ s).trans h.ends
  visible_eq := by
    have hv := (h.skip he (s.visible d).length).visible_eq
    rw [h.visible_eq, List.drop_length, ← h.visible_eq] at hv
    exact hv
  rest_of_ended _ := rfl

/-- The line that a stream gives is the first line of the bytes that it offers. -/
theorem getLine (h : Offers d rest s) :
    (s.getLine d).1.map Text.dropReturn = rest.lines.head? ∧
      Offers d rest.afterLine (s.getLine d).2 := by
  cases he : s.ended with
  | true =>
    rw [getLine_of_done (by simp [he])]
    obtain rfl := h.rest_of_ended he
    exact ⟨rfl, h⟩
  | false =>
    rcases hb : rest.breakLine with _ | ⟨line, rest'⟩
    · have hg : s.getLine d =
          (if rest.isEmpty then none else some rest, { s.skipAll d with ended := true }) := by
        simp [InStream.getLine, he, h.good, h.visible_eq, hb, h.ends]
      rw [hg, Text.afterLine_of_none hb]
      refine ⟨?_, h.skipAll he true⟩
      by_cases hr : rest = []
      · simp [hr]
      · simp [hr, Text.lines_of_breakLine_eq_none hb hr]
    · have hg : s.getLine d = (some line, s.skip d (line.length + 1)) := by
        simp [InStream.getLine, he, h.good, h.visible_eq, hb]
      have hd : rest.drop (line.length + 1) = rest' := Text.drop_of_breakLine_eq_some hb
      rw [hg, Text.afterLine_of_some hb, Text.lines_of_breakLine_eq_some hb]
      exact ⟨rfl, hd ▸ h.skip he (line.length + 1)⟩

/-- All that a stream gives is what it offers. -/
theorem getAll (h : Offers d rest s) :
    (s.getAll d).1 = rest ∧ Offers d [] (s.getAll d).2 := by
  cases he : s.ended with
  | true =>
    obtain rfl := h.rest_of_ended he
    have hg : s.getAll d = ([], s) := by simp [InStream.getAll, he]
    rw [hg]
    exact ⟨rfl, h⟩
  | false =>
    by_cases hr : rest = []
    · have hg : s.getAll d = ([], { s with ended := true }) := by
        simp [InStream.getAll, he, h.good, h.visible_eq, hr, h.ends]
      rw [hg, hr]
      exact ⟨rfl, h.good, h.ends, h.visible_eq.trans hr, fun _ => rfl⟩
    · have hg : s.getAll d = (rest, s.skipAll d) := by
        simp [InStream.getAll, he, h.good, h.visible_eq, hr]
      rw [hg, InStream.skipAll, h.visible_eq]
      have hs := h.skip he rest.length
      rw [List.drop_length] at hs
      exact ⟨rfl, hs⟩

end Offers

end InStream

/-! ### One line after another -/

/-- Actions in a row, each of which finds the first line that is left and leaves the text behind it,
find one line after another, and those for which there is no line left find none. -/
theorem Action.each_lineAt {σ ι α : Type} {action : ι → Action σ α} {p : Text → σ → Prop}
    {found : Text → Except Fault α} {missed : Except Fault α}
    (step : ∀ i rest s, p rest s →
      ((action i).outcome s).1 = rest.lines.head?.elim missed found ∧
        p rest.afterLine ((action i).outcome s).2)
    (is : List ι) {rest : Text} {s : σ} (h : p rest s) :
    (each action is s).1 =
        (List.range is.length).map (fun k => rest.lines[k]?.elim missed found) ∧
      p (Text.afterLine^[is.length] rest) (each action is s).2 := by
  induction is generalizing rest s with
  | nil => exact ⟨rfl, h⟩
  | cons i is ih =>
    obtain ⟨hi, hs⟩ := step i rest s h
    obtain ⟨hr, hp⟩ := ih hs
    refine ⟨?_, hp⟩
    have hk (k : Nat) : rest.lines.tail[k]? = rest.lines[k + 1]? := List.getElem?_tail
    rw [each, List.length_cons, List.range_succ_eq_map, List.map_cons, List.map_map]
    simp only [hi, hr, Text.lines_afterLine, hk, List.head?_eq_getElem?, Function.comp_def]

/-- Enough actions in a row find all lines, and those that come after them find none. -/
theorem Action.each_lines {σ ι α : Type} {action : ι → Action σ α} {p : Text → σ → Prop}
    {found : Text → Except Fault α} {missed : Except Fault α}
    (step : ∀ i rest s, p rest s →
      ((action i).outcome s).1 = rest.lines.head?.elim missed found ∧
        p rest.afterLine ((action i).outcome s).2)
    (is : List ι) {rest : Text} {more : Nat} {s : σ} (hn : is.length = rest.lines.length + more)
    (h : p rest s) :
    (each action is s).1 = rest.lines.map found ++ List.replicate more missed := by
  rw [(each_lineAt step is h).1, hn]
  refine List.ext_getElem (by simp) fun k hk _ => ?_
  rw [List.length_map, List.length_range] at hk
  rw [List.getElem_map, List.getElem_range]
  by_cases hl : k < rest.lines.length
  · rw [List.getElem_append_left (by simpa using hl), List.getElem_map,
      List.getElem?_eq_getElem hl, Option.elim_some]
  · rw [List.getElem_append_right (by simpa using hl), List.getElem_replicate,
      List.getElem?_eq_none (Nat.le_of_not_lt hl), Option.elim_none]

/-! ### Readers -/

namespace Reader

open InStream

variable {r : Reader} {d : Disk} {rest : Text} {s : InStream}

theorem readLine_of_offers (hr : r.closed = false) (h : Offers d rest s) :
    ((r.readLine d).outcome s).1 = .ok rest.lines.head? ∧
      Offers d rest.afterLine ((r.readLine d).outcome s).2 := by
  obtain ⟨hl, hs⟩ := h.getLine
  rw [outcome_readLine hr, ← hl]
  refine ⟨?_, hs⟩
  rcases (s.getLine d).1 with _ | line
  · simp [hs.good]
  · rfl

theorem elim_ok_some {α : Type} (line : Option α) :
    line.elim (.ok none) (fun line => .ok (some line)) = (.ok line : Except Fault (Option α)) := by
  cases line <;> rfl

/-- As a step of a row of calls, reading a line finds the first line that is left or none. -/
theorem readLine_step (hr : r.closed = false) (h : Offers d rest s) :
    ((r.readLine d).outcome s).1 =
        rest.lines.head?.elim (.ok none) (fun line => .ok (some line)) ∧
      Offers d rest.afterLine ((r.readLine d).outcome s).2 := by
  rw [elim_ok_some]
  exact readLine_of_offers hr h

/-- Reading line after line gives all lines, and none from then on. -/
theorem each_readLine_of_offers (hr : r.closed = false) (more : Nat) (h : Offers d rest s) :
    (Action.each (fun _ : Unit => r.readLine d)
        (List.replicate (rest.lines.length + more) ()) s).1 =
      rest.lines.map (fun line => .ok (some line)) ++ List.replicate more (.ok none) :=
  Action.each_lines (p := Offers d) (fun _ _ _ h => readLine_step hr h) _ List.length_replicate h

/-- Reading lines gives as many as are asked for, if there are so many, and leaves the others. -/
theorem takeLines_of_offers (hr : r.closed = false) (n : Nat) (h : Offers d rest s) :
    ((r.takeLines d n).outcome s).1 = .ok (rest.lines.take n) ∧
      ∃ rest', rest'.lines = rest.lines.drop n ∧
        Offers d rest' ((r.takeLines d n).outcome s).2 := by
  induction n generalizing rest s with
  | zero => exact ⟨rfl, rest, rfl, h⟩
  | succ n ih =>
    obtain ⟨hl, hs⟩ := readLine_of_offers hr h
    have ht := Text.lines_afterLine rest
    rw [outcome_takeLines_succ]
    generalize (r.readLine d).outcome s = left at hl hs
    obtain ⟨result, s'⟩ := left
    obtain rfl := hl
    rcases hlines : rest.lines with _ | ⟨line, lines⟩
    · rw [hlines] at ht
      exact ⟨rfl, rest.afterLine, ht, hs⟩
    · rw [hlines] at ht
      obtain ⟨h₁, rest', h₂, h₃⟩ := ih hs
      rw [ht] at h₁ h₂
      refine ⟨?_, rest', h₂, h₃⟩
      simp only [List.head?_cons, h₁]
      rfl

/-- Reading all lines gives them all and leaves no bytes. -/
theorem readLines_of_offers (hr : r.closed = false) (h : Offers d rest s) :
    ((r.readLines d).outcome s).1 = .ok rest.lines ∧
      Offers d [] ((r.readLines d).outcome s).2 := by
  have hn : rest.lines.length ≤ rest.length + 1 := Nat.le_succ_of_le rest.length_lines_le
  obtain ⟨h₁, rest', h₂, h₃⟩ := takeLines_of_offers hr (rest.length + 1) h
  rw [List.take_of_length_le hn] at h₁
  rw [List.drop_of_length_le hn, Text.lines_eq_nil_iff] at h₂
  rw [outcome_readLines, h.visible_eq]
  exact ⟨h₁, h₂ ▸ h₃⟩

/-- Reading all bytes gives what is left and leaves none. -/
theorem readAll_of_offers (hr : r.closed = false) (h : Offers d rest s) :
    ((r.readAll d).outcome s).1 = .ok rest ∧ Offers d [] ((r.readAll d).outcome s).2 := by
  obtain ⟨hg, hs⟩ := h.getAll
  rw [outcome_readAll hr, hs.good, hg]
  exact ⟨rfl, hs⟩

end Reader

/-! ### Questions -/

namespace InStream

variable {d : Disk} {rest : Text} {s : InStream}

theorem supply_skip_of_ends (h : s.supply = .ends) (d : Disk) (n : Nat) :
    (s.skip d n).supply = .ends := by
  unfold skip
  split
  · exact h
  · simp [h]

theorem supply_getLine_of_ends (h : s.supply = .ends) (d : Disk) :
    (s.getLine d).2.supply = .ends := by
  unfold getLine
  split
  · exact h
  · split
    · exact supply_skip_of_ends h d _
    · split <;> exact supply_skip_of_ends h d _

/-- What a stream offers that takes nothing from a file does not hang on the disk. -/
theorem Offers.of_ends (hs : s.supply = .ends) (h : Offers d rest s) (d' : Disk) :
    Offers d' rest s where
  good := h.good
  ends := by simp [failsBehind, hs]
  visible_eq := by
    have hv := h.visible_eq
    simp only [visible, ahead, hs] at hv ⊢
    exact hv
  rest_of_ended := h.rest_of_ended

end InStream

namespace Dialogue

open InStream

variable {rest : Text} {s : Dialogue}

/-- A question is answered with the first line that is left, if there is one. -/
theorem ask_of_offers (prompt : Text) (hs : s.input.supply = .ends)
    (h : Offers s.disk rest s.input) :
    ((ask prompt).outcome s).1 = rest.lines.head?.elim (.error .endOfInput) .ok ∧
      ((ask prompt).outcome s).2.input.supply = .ends ∧
      Offers ((ask prompt).outcome s).2.disk rest.afterLine ((ask prompt).outcome s).2.input := by
  obtain ⟨hl, ho⟩ := (h.of_ends hs (s.prompted prompt).disk).getLine
  have he := supply_getLine_of_ends hs (s.prompted prompt).disk
  rw [outcome_ask, ← hl]
  refine ⟨?_, he, ho⟩
  rcases (s.input.getLine (s.prompted prompt).disk).1 with _ | line
  · simp [ho.good]
  · rfl

/-- Questions are answered with one line after another, and those that find no line left raise the
fault of an input at its end. -/
theorem askAll_of_offers (prompts : List Text) {more : Nat}
    (hp : prompts.length = rest.lines.length + more) (hs : s.input.supply = .ends)
    (h : Offers s.disk rest s.input) :
    (askAll prompts s).1 = rest.lines.map .ok ++ List.replicate more (.error .endOfInput) :=
  Action.each_lines
    (p := fun rest s => s.input.supply = .ends ∧ InStream.Offers s.disk rest s.input)
    (fun prompt _ _ h => ask_of_offers prompt h.1 h.2) prompts hp ⟨hs, h⟩

end Dialogue

end ScriptBase

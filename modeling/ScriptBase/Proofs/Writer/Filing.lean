import ScriptBase.Proofs.Disk.Creation
import ScriptBase.Proofs.Writer.Healthy

/-!
# What a file holds

A stream to a file holds bytes back. What the file holds and what is held back make up the text that
the stream was given, and once the stream is closed the file holds it all. A file takes all bytes,
so the stream never fails, and the paths of the disk go on leading where they led.

## Main definitions

* `ScriptBase.OutStream.Filed`: the account of a stream to a file.
* `ScriptBase.Ledger.filing`: the ledger of such streams.

## Main results

* `ScriptBase.FileTarget.deliver_of_file`: delivering appends to the file.
* `ScriptBase.WriterCall.node?_each_close`: what a file holds after a row of calls and a close.
-/

namespace ScriptBase

/-- A file takes the bytes that are held back and those that follow, at its end. -/
theorem FileTarget.deliver_of_file {f : FileTarget} {d : Disk} {c : Text}
    (hn : d.node? f.path = some (.file c)) (ho : f.offset.getD c.length = c.length) (s : Text) :
    ∃ f' d', f.deliver d s = (true, f', d') ∧ f'.path = f.path ∧ f'.held = [] ∧ d'.Extends d ∧
      d'.node? f.path = some (.file (c ++ (f.held ++ s))) ∧
      f'.offset.getD (c ++ (f.held ++ s)).length = (c ++ (f.held ++ s)).length := by
  have hw : ∃ d', d.write f.path f.offset (f.held ++ s) = (true, d') ∧ d'.Extends d ∧
      d'.node? f.path = some (.file (c ++ (f.held ++ s))) := by
    by_cases he : f.held ++ s = []
    · exact ⟨d, by simp [Disk.write, he], .refl d, by rw [he, List.append_nil, hn]⟩
    · refine ⟨d.put f.path (.file (c ++ (f.held ++ s))), ?_, ?_, by simp⟩
      · rw [Disk.write, if_neg (by simpa using he), hn]
        dsimp only
        rw [ho, Disk.overwrite_length]
      · exact .put (by simp [Disk.isDirectory, hn]) (by simp)
  obtain ⟨d', hw, hd, hn'⟩ := hw
  refine ⟨⟨f.path, f.offset.map (· + (f.held ++ s).length), []⟩, d', by rw [deliver, hw]; rfl, rfl,
    rfl, hd, hn', ?_⟩
  cases hf : f.offset with
  | none => rfl
  | some offset =>
    rw [hf] at ho
    obtain rfl : offset = c.length := ho
    simp

/-- A stream to a file that has never failed: what the file holds and what is held back make up the
given text, and the disk extends the one that the stream was opened on. -/
structure OutStream.Filed (base : Disk) (p : Path) (s : OutStream) (d : Disk) (t : Text) :
    Prop where
  good : s.failed = false
  disk : d.Extends base
  filed : ∃ f c, s.target = .file f ∧ f.path = p ∧ d.node? p = some (.file c) ∧
    f.offset.getD c.length = c.length ∧ c ++ f.held = t

namespace OutStream.Filed

variable {base d : Disk} {p : Path} {s : OutStream} {t : Text}

theorem write (h : Filed base p s d t) (bytes : Text) :
    Filed base p (s.write d bytes).1 (s.write d bytes).2 (t ++ bytes) := by
  obtain ⟨hg, hd, f, c, hf, rfl, hn, ho, rfl⟩ := h
  rw [OutStream.write, hg, hf]
  simp only [Bool.false_eq_true, if_false, FileTarget.write]
  split
  · exact ⟨rfl, hd, _, c, rfl, rfl, hn, ho, (List.append_assoc ..).symm⟩
  · obtain ⟨f', d', he, hp, hh, hd', hn', ho'⟩ := FileTarget.deliver_of_file hn ho bytes
    rw [he]
    refine ⟨rfl, hd'.trans hd, f', _, rfl, hp, hn', ho', ?_⟩
    rw [hh, List.append_nil, List.append_assoc]

/-- Flushing leaves nothing held back. -/
theorem flush (h : Filed base p s d t) : Filed base p (s.flush d).1 (s.flush d).2 t ∧
    (s.flush d).2.node? p = some (.file t) := by
  obtain ⟨hg, hd, f, c, hf, rfl, hn, ho, rfl⟩ := h
  obtain ⟨f', d', he, hp, hh, hd', hn', ho'⟩ := FileTarget.deliver_of_file hn ho []
  rw [OutStream.flush, hg, hf]
  simp only [Bool.false_eq_true, if_false, he]
  rw [List.append_nil] at hn' ho'
  exact ⟨⟨rfl, hd'.trans hd, f', _, rfl, hp, hn', ho', by rw [hh, List.append_nil]⟩, hn'⟩

/-- Closing leaves nothing held back. -/
theorem close (h : Filed base p s d t) : Filed base p (s.close d).1 (s.close d).2 t ∧
    (s.close d).2.node? p = some (.file t) := by
  obtain ⟨hg, hd, f, c, hf, rfl, hn, ho, rfl⟩ := h
  obtain ⟨f', d', he, hp, hh, hd', hn', ho'⟩ := FileTarget.deliver_of_file hn ho []
  rw [OutStream.close, hf]
  simp only [he, hg]
  rw [List.append_nil] at hn' ho'
  exact ⟨⟨rfl, hd'.trans hd, f', _, rfl, hp, hn', ho', by rw [hh, List.append_nil]⟩, hn'⟩

end OutStream.Filed

/-- A stream that was opened on a file is at its end, if it goes on there or the file is empty. -/
theorem OutStream.filed_toPath {d : Disk} {p : Path} {c : Text}
    (hn : d.node? p = some (.file c)) (appending : Bool) (ha : appending = true ∨ c = []) :
    (toPath p appending).Filed d p d c := by
  refine ⟨rfl, .refl _, .start p appending, c, rfl, rfl, hn, ?_, List.append_nil c⟩
  rcases ha with rfl | rfl
  · rfl
  · cases appending <;> rfl

namespace Ledger

/-- The streams to a file that have never failed, with what the file held before and the text that
they were given behind it. -/
def filing (base : Disk) (p : Path) (before : Text) : Ledger where
  holds s d t := s.Filed base p d (before ++ t)
  write bytes h := by
    rw [← List.append_assoc]
    exact h.write bytes
  flush h := h.flush.1
  close h := h.close.1

theorem healthy_filing (base : Disk) (p : Path) (before : Text) :
    (filing base p before).Healthy := fun h => h.good

end Ledger

namespace Writing

/-- A writer that was opened on a file is sound, if it goes on at the end or the file is empty. -/
theorem sound_toPath {host : Host} {p : Path} {settings : Settings} {c : Text}
    (hs : host.environment.settings = .ok settings) (hn : host.disk.node? p = some (.file c))
    (appending : Bool) (ha : appending = true ∨ c = []) (name : Text) (capacity : Nat) :
    Sound (.filing host.disk p c) [] ⟨.opened name capacity, .toPath p appending, host⟩ where
  isOpen := rfl
  accounted := by
    have hf := OutStream.filed_toPath hn appending ha
    rw [← List.append_nil c] at hf
    exact ⟨[], [], rfl, hf, fun _ => rfl⟩
  settings := ⟨settings, hs⟩

end Writing

namespace WriterCall

open Writing

variable {base : Disk} {p : Path} {before t : Text} {w : Writing}

/-- Calls on a sound writer to a file raise no fault, and after a close the file holds all texts
behind what it held before. -/
theorem node?_each_close (calls : List WriterCall) (hc : .close ∉ calls)
    (h : Sound (.filing base p before) t w) :
    let left := Action.each action (calls ++ [.close]) w
    (∀ result ∈ left.1, result = .ok ()) ∧
      (left.2.host.disk.Extends base ∧
        left.2.host.disk.node? p = some (.file (before ++ (t ++ written calls)))) ∧
      left.2.host.environment = w.host.environment :=
  each_close_of_sound (Ledger.healthy_filing base p before)
    (q := fun _ d => d.Extends base ∧ d.node? p = some (.file (before ++ (t ++ written calls))))
    calls (fun _ _ hs => ⟨hs.close.1.disk, hs.close.2⟩) hc h

end WriterCall

end ScriptBase

import ScriptBase.Proofs.Disk.Opening
import ScriptBase.Proofs.Reader.Remaining
import ScriptBase.Proofs.Writer.Filing

/-!
# Writing lines and reading them back

Lines that are written to a file come back as they were, however the text that spells them was cut
into writes, whatever the buffer size is, and wherever flushes stand in between. Reading all lines,
going through them and asking for them on a stream of the same bytes give the same list.

## Main definitions

* `ScriptBase.Disk.HoldsFile`: the text of a path leads to a file.

## Main results

* `ScriptBase.Host.readLines_written`.
-/

namespace ScriptBase

/-- The text of a path leads to a file, and not to a device. -/
def Disk.HoldsFile (d : Disk) (path : Text) : Prop :=
  ∃ p c, d.locate path = .ok p ∧ d.node? p = some (.file c)

namespace File

variable {host : Host} {name : Text} {p : Path} {c : Text}

/-- A reader on a file gives as many of its lines as are asked for. -/
theorem takeLines_ofPath (h : host.disk.node? p = some (.file c)) (n : Nat) :
    ((takeLines n).outcome (ofInput name (.ofPath p), host)).1 = .ok (c.lines.take n) := by
  rw [takeLines, ofInput, outcome_onReader]
  exact (Reader.takeLines_of_offers rfl n (InStream.offers_ofPath h)).1

/-- A reader on a file gives all lines at once, and none when it is asked again. -/
theorem readLines_ofPath (h : host.disk.node? p = some (.file c)) :
    let first := readLines.outcome (ofInput name (.ofPath p), host)
    first.1 = .ok c.lines ∧ (readLines.outcome first.2).1 = .ok [] := by
  obtain ⟨h₁, h₂⟩ :=
    Reader.readLines_of_offers (r := .opened name) rfl (InStream.offers_ofPath h)
  obtain ⟨h₃, -⟩ := Reader.readLines_of_offers (r := .opened name) rfl h₂
  simp only [readLines, ofInput, outcome_onReader]
  exact ⟨h₁, h₃⟩

end File

namespace Host

open WriterCall

variable {host opened : Host} {path : Text} {file : File} {lines : List Text}
  {calls : List WriterCall}

/-- After any row of writes and flushes to a file that was opened for writing, and a close, none of
which raises a fault, the file holds the texts that were written, and its path leads to it. -/
theorem node?_written (hopen : (openFile path "w").outcome host = (.ok file, opened))
    (hfile : opened.disk.HoldsFile path) (hcalls : .close ∉ calls) :
    let left := Action.each onFile (calls ++ [.close]) (file, opened)
    (∀ result ∈ left.1, result = .ok ()) ∧
      ∃ p settings, left.2.2.disk.locate path = .ok p ∧
        left.2.2.disk.node? p = some (.file (written calls)) ∧
        left.2.2.environment.settings = .ok settings := by
  have hwriter : (openWriter path false).outcome host = (.ok file, opened) := hopen
  obtain ⟨p, settings, hc, hs, rfl⟩ := openWriter_eq_ok hwriter
  have hp := Disk.locate_of_create hc
  obtain ⟨p', c, hp', hn⟩ := hfile
  obtain rfl : p = p' := Except.ok.inj (hp.symm.trans hp')
  obtain rfl := Disk.eq_nil_of_create_truncating hc hn
  have hw := Writing.sound_toPath hs hn false (.inr rfl) path settings.bufferSize
  obtain ⟨hr, ⟨hd, hn'⟩, he⟩ := node?_each_close calls hcalls hw
  have hleft := each_onFile (calls ++ [.close])
    ⟨.opened path settings.bufferSize, .toPath p false, opened⟩
  intro left
  have hleft' : left = _ := hleft
  rw [hleft']
  exact ⟨hr, p, settings, hd.locate hp, hn', (congrArg Environment.settings he).trans hs⟩

/-- Lines that are written to a file, in any spelling and any cut into writes, with or without
flushes, are read back as they were once the file is closed and opened again: all at once and then
none, some or all of them one after another, and by questions on a stream of the same bytes, which
then meet its end. -/
theorem readLines_written (hopen : (openFile path "w").outcome host = (.ok file, opened))
    (hfile : opened.disk.HoldsFile path) (hcalls : .close ∉ calls)
    (hlines : Text.Spelled lines (written calls)) :
    let left := Action.each onFile (calls ++ [.close]) (file, opened)
    (∀ result ∈ left.1, result = .ok ()) ∧
      ∃ reader reopened, (openFile path "r").outcome left.2.2 = (.ok reader, reopened) ∧
        (let first := File.readLines.outcome (reader, reopened);
          first.1 = .ok lines ∧ (File.readLines.outcome first.2).1 = .ok []) ∧
        (∀ n, ((File.takeLines n).outcome (reader, reopened)).1 = .ok (lines.take n)) ∧
        ∀ prompts more output disk, prompts.length = lines.length + more →
          (Dialogue.askAll prompts ⟨.ofText (written calls) false, output, disk⟩).1 =
            lines.map .ok ++ List.replicate more (.error .endOfInput) := by
  intro left
  obtain ⟨hr, p, settings, hp, hn, hs⟩ := node?_written hopen hfile hcalls
  obtain ⟨reopened, ho, hd⟩ := openReader_eq_ok hp hs
  obtain rfl := hlines.lines_eq
  rw [← hd] at hn
  refine ⟨hr, _, reopened, ho, File.readLines_ofPath hn, File.takeLines_ofPath hn, ?_⟩
  intro prompts more output disk hl
  exact Dialogue.askAll_of_offers prompts hl rfl (InStream.offers_ofText disk _)

/-- Two lines through a buffer of two bytes, with a flush between a carriage return and its
newline, to a file that does not exist before. -/
theorem readLines_written_two :
    let host := start ⟨none, some [0x32]⟩ ⟨Dict.ofLast [([], .directory)], []⟩ none
    let opened := ((openFile [0x66] "w").outcome host).2
    let file := File.ofOutput [0x66] 2 (.toPath [[0x66]] false)
    let left := Action.each onFile
      ([.write [0x61, 0x0d], .flush, .write [0x0a, 0x62]] ++ [.close]) (file, opened)
    ∃ reader reopened, (openFile [0x66] "r").outcome left.2.2 = (.ok reader, reopened) ∧
      (File.readLines.outcome (reader, reopened)).1 = .ok [[0x61], [0x62]] := by
  intro host opened file left
  have hopen : (openFile [0x66] "w").outcome host = (.ok file, opened) := rfl
  have hcalls : WriterCall.close ∉ [.write [0x61, 0x0d], .flush, .write [0x0a, 0x62]] := by simp
  have hlast : Text.Spelled [[0x62]] [0x62] := .last ⟨by decide, by decide⟩ (by decide)
  have hlines : Text.Spelled [[0x61], [0x62]] ([0x61] ++ [0x0d, 0x0a] ++ [0x62]) :=
    .cons ⟨by decide, by decide⟩ .returnNewline hlast
  obtain ⟨-, reader, reopened, ho, ⟨hr, -⟩, -, -⟩ :=
    readLines_written hopen ⟨[[0x66]], [], rfl, rfl⟩ hcalls hlines
  exact ⟨reader, reopened, ho, hr⟩

end Host

end ScriptBase

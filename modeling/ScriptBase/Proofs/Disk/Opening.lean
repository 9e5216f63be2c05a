import ScriptBase.File.Basic
import ScriptBase.Proofs.Disk.Creation

/-!
# Opening files

Opening a file for writing creates it, or takes away what it holds, before the settings are looked
at. If these turn out to be malformed the opening raises a fault, and the file has changed all the
same. An opening that raises a fault for any other reason, and every opening for reading, leaves the
disk as it was.

## Main definitions

* `ScriptBase.OpenMode.Touches`: whether opening in a mode creates a file at a path or empties it.

## Main results

* `ScriptBase.Host.openWriter_eq_ok`, `ScriptBase.Host.openReader_eq_ok`: what an opening gives that
  raises no fault.
* `ScriptBase.Host.node?_ne_iff_of_openFile_error`: what an opening that raises a fault has changed.
* `ScriptBase.Host.openFile_error_loses_content`: an opening that raises a fault and loses bytes.
-/

namespace ScriptBase

/-- Opening in a mode *touches* what stands at a path: a file is created there, or one that is there
loses its bytes, where the text of the path leads. -/
def OpenMode.Touches (m : OpenMode) (d : Disk) (path : Text) (p : Path) : Prop :=
  m ≠ .read ∧ (∃ d', d.create (m = .write) path = .ok (p, d')) ∧
    (d.node? p = none ∨ m = .write ∧ ∃ c, c ≠ [] ∧ d.node? p = some (.file c))

namespace Host

variable {host host' : Host} {path mode : Text} {fault : Fault}

/-! ### Openings that succeed -/

/-- A file that was opened for writing is a writer with the buffer size of the settings, on a stream
to what was created. -/
theorem openWriter_eq_ok {appending : Bool} {file : File}
    (h : (openWriter path appending).outcome host = (.ok file, host')) :
    ∃ p settings, host.disk.create (!appending) path = .ok (p, host'.disk) ∧
      host'.environment.settings = .ok settings ∧
      file = .ofOutput path settings.bufferSize (.toPath p appending) := by
  rw [outcome_openWriter] at h
  rcases hc : host.disk.create (!appending) path with error | ⟨p, disk⟩
  · simp [hc] at h
  · rw [hc] at h
    rcases hs : host.environment.settings with fault | settings
    · simp [hs, Except.map] at h
    · rw [hs] at h
      simp only [Except.map, Prod.mk.injEq, Except.ok.injEq] at h
      obtain ⟨rfl, rfl⟩ := h
      exact ⟨p, settings, by rw [disk_trace], by rw [environment_trace]; exact hs, rfl⟩

/-- What a path leads to can be opened for reading if the settings are well-formed. -/
theorem openReader_eq_ok {p : Path} {settings : Settings} (hp : host.disk.locate path = .ok p)
    (hs : host.environment.settings = .ok settings) :
    ∃ host', (openReader path).outcome host = (.ok (.ofInput path (.ofPath p)), host') ∧
      host'.disk = host.disk := by
  refine ⟨((trace (.opened path .reading)).outcome host).2, ?_, disk_trace _ host⟩
  rw [outcome_openReader, hp, hs]
  rfl

/-! ### Openings that raise a fault -/

theorem disk_openReader (path : Text) (host : Host) :
    ((openReader path).outcome host).2.disk = host.disk := by
  rw [outcome_openReader]
  rcases host.disk.locate path with error | p
  · rfl
  · exact disk_trace _ host

/-- An opening for writing that raises a fault has changed what it touches if the fault is that of
the settings, and nothing otherwise. -/
theorem node?_ne_iff_of_openWriter_error {m : OpenMode} {appending : Bool} (hr : m ≠ .read)
    (hm : m = .write ↔ appending = false)
    (h : (openWriter path appending).outcome host = (.error fault, host')) (q : Path) :
    host'.disk.node? q ≠ host.disk.node? q ↔
      host.environment.settings = .error fault ∧ m.Touches host.disk path q := by
  have hw : m = .write ↔ (!appending) = true := by simpa using hm
  have ht : decide (m = .write) = !appending := by simp [hw]
  rw [OpenMode.Touches, ht, hw]
  rw [outcome_openWriter] at h
  rcases hc : host.disk.create (!appending) path with error | ⟨p, d⟩
  · rw [hc] at h
    cases h
    simp
  · rw [hc] at h
    rcases hs : host.environment.settings with fault' | settings
    · rw [hs] at h
      obtain ⟨rfl, rfl⟩ : fault' = fault ∧ _ = host' := by simpa [Except.map] using h
      rw [disk_trace, Disk.node?_of_create_ne_iff hc]
      constructor
      · rintro ⟨rfl, hn⟩
        exact ⟨rfl, hr, ⟨d, rfl⟩, hn⟩
      · rintro ⟨-, -, ⟨d', hd⟩, hn⟩
        cases hd
        exact ⟨rfl, hn⟩
    · simp [hs, Except.map] at h

/-- An opening that raises a fault has changed what stands at a path exactly if the fault is that
of malformed settings and the opening, for writing or appending, has created a file there or taken
away the bytes of one. -/
theorem node?_ne_iff_of_openFile_error
    (h : (openFile path mode).outcome host = (.error fault, host')) (q : Path) :
    host'.disk.node? q ≠ host.disk.node? q ↔
      host.environment.settings = .error fault ∧
        ∃ m, OpenMode.ofText? mode = some m ∧ m.Touches host.disk path q := by
  rw [openFile] at h
  rcases hm : OpenMode.ofText? mode with _ | m
  · rw [hm] at h
    cases h
    simp
  · rw [hm] at h
    have hm' : (∃ m', some m = some m' ∧ m'.Touches host.disk path q) ↔
        m.Touches host.disk path q := by simp
    rw [hm']
    cases m with
    | read =>
      have hd : host'.disk = host.disk := by
        have hr := disk_openReader path host
        rwa [show (openReader path).outcome host = _ from h] at hr
      simp [hd, OpenMode.Touches]
    | write => exact node?_ne_iff_of_openWriter_error (by simp) (by simp) h q
    | append => exact node?_ne_iff_of_openWriter_error (by simp) (by simp) h q

/-- A malformed buffer size is found after the file `a` has lost its byte. -/
theorem node?_ne_of_malformed_bufferSize :
    let host := start ⟨none, some [0x78]⟩
      ⟨Dict.ofLast [([], .directory), ([[0x61]], .file [0x62])], []⟩ none
    let opened := (openFile [0x61] [0x77]).outcome host
    opened.1.toOption = none ∧ opened.2.disk.node? [[0x61]] ≠ host.disk.node? [[0x61]] := by
  intro host opened
  refine ⟨rfl, ?_⟩
  have h : opened = (.error (.bufferSize (.malformed .invalidCharacter) [0x78]), opened.2) := rfl
  refine (node?_ne_iff_of_openFile_error h [[0x61]]).2 ⟨rfl, .write, rfl, by decide, ?_, ?_⟩
  · exact ⟨opened.2.disk, rfl⟩
  · exact .inr ⟨rfl, [0x62], by decide, rfl⟩

/-- Not every opening that raises a fault leaves what stands on the disk. -/
theorem openFile_error_loses_content :
    ¬ ∀ (host host' : Host) (path mode : Text) (fault : Fault),
      (openFile path mode).outcome host = (.error fault, host') →
        ∀ q, host'.disk.node? q = host.disk.node? q := by
  intro h
  let disk : Disk := ⟨Dict.ofLast [([], .directory), ([[0x61]], .file [0x62])], []⟩
  have hq := h (start ⟨none, some [0x78]⟩ disk none) _ [0x61] [0x77] _ rfl [[0x61]]
  exact absurd hq (by decide)

end Host

end ScriptBase

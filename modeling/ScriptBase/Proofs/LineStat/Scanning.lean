import Mathlib.Data.List.TakeWhile
import ScriptBase.LineStat
import ScriptBase.Proofs.Disk.Opening
import ScriptBase.Proofs.Reader.Remaining

/-!
# Scanning the lines of a file

The line statistics open a file, count one line after another until none is left or one raises a
fault, close the file and print what was counted. As long as the standard output is a sink, printing
leaves the disk as it is, so the lines that are counted are those that the file has at the start.
The file is opened and closed with traces, which need well-formed settings.

## Main definitions

* `ScriptBase.LineStat.countLines`: what is done for the lines of a list.
* `ScriptBase.Host.OnSink`: a host whose standard output is a sink.
* `ScriptBase.Host.showing`: a host whose standard output takes all bytes.

## Main results

* `ScriptBase.LineStat.Scan.exists_outcome_lines`: going through the lines of a stream.
* `ScriptBase.LineStat.outcome_report`: what is done for a file.
-/

namespace ScriptBase

namespace Host

variable {d : Disk} {e : Environment}

/-- A host with a disk and an environment whose standard output is a sink. -/
structure OnSink (d : Disk) (e : Environment) (host : Host) : Prop where
  disk_eq : host.disk = d
  environment_eq : host.environment = e
  sink : ∃ k, host.output.target = .sink k

theorem keeps_print (vs : List Value) : (print vs).Keeps (OnSink d e) := by
  rintro host ⟨hd, he, k, hk⟩
  rw [outcome_print, OutStream.write, hk]
  dsimp only
  split
  · exact ⟨hd, he, k, hk⟩
  · exact ⟨hd, he, _, rfl⟩

theorem keeps_trace (event : Event) : (trace event).Keeps (OnSink d e) := by
  rintro host ⟨hd, he, k, hk⟩
  obtain ⟨s, hs⟩ := exists_diagnostics_trace event host
  rw [hs]
  exact ⟨hd, he, k, hk⟩

theorem snd_outcome_trace (host : Host) {settings : Settings}
    (hs : host.environment.settings = .ok settings) (event : Event) :
    ((trace event).outcome host).2 =
      { host with
        diagnostics := host.diagnostics ++ if settings.tracing then event.line else [] } := by
  rw [outcome_trace, hs]
  dsimp only
  split
  · rfl
  · rw [List.append_nil]

/-! ### A standard output that takes all bytes -/

variable {g s : Text}

/-- A host with a standard output that takes all bytes and has got a text. -/
def showing (e : Environment) (d : Disk) (diagnostics printed : Text) : Host :=
  ⟨e, d, ⟨.sink ⟨printed, none, 0, false⟩, false⟩, diagnostics⟩

theorem outcome_print_showing (vs : List Value) :
    (print vs).outcome (showing e d g s) = (.ok (), showing e d g (s ++ printedLine vs)) := by
  rw [outcome_print]
  simp [showing, OutStream.write, Sink.write, Sink.fitting, OutStream.good]

end Host

/-! ### Paths and settings -/

theorem Text.throughNul_throughNul (s : Text) : s.throughNul.throughNul = s.throughNul :=
  List.takeWhile_idem

/-- A path leads where its part before the first NUL byte leads. -/
theorem Disk.locate_throughNul (d : Disk) (path : Text) :
    d.locate path.throughNul = d.locate path := by
  rw [locate, Text.throughNul_throughNul]
  rfl

/-- Reading a line of a directory fails. -/
theorem InStream.getLine_of_directory {d : Disk} {p : Path} (h : d.isDirectory p = true) :
    ((ofPath p).getLine d).1 = none ∧ ((ofPath p).getLine d).2.failed = true := by
  have hn : d.node? p = some .directory := by simpa [Disk.isDirectory] using h
  have hv : (ofPath p).visible d = [] := by simp [visible, ahead, ofPath, Disk.content, hn]
  have hg : (ofPath p).getLine d = (none, { (ofPath p).skipAll d with failed := true }) := by
    rw [getLine, hv]
    simp [ofPath, failsBehind, h]
  rw [hg]
  exact ⟨rfl, rfl⟩

namespace LineStat

variable {d : Disk} {e : Environment}

/-! ### The file that is scanned -/

namespace Scan

variable {r : Reader} {rest : Text} {stream : InStream} {host : Host}

/-- Of a stream that offers lines, the first one is read. -/
theorem exists_outcome_readLine (hr : r.closed = false) (hs : stream.Offers host.disk rest)
    (t : Tally) :
    ∃ stream', stream'.Offers host.disk rest.afterLine ∧
      (onFile File.readLine).outcome ⟨.reader r stream, host, t⟩ =
        (.ok rest.lines.head?, ⟨.reader r stream', host, t⟩) := by
  obtain ⟨hl, hs'⟩ := Reader.readLine_of_offers hr hs
  refine ⟨_, hs', ?_⟩
  rw [onFile, Action.outcome_on, File.readLine, File.outcome_onReader, hl]

/-- A reader is closed and a trace is made of that. -/
theorem outcome_close (hr : r.closed = false) (t : Tally) :
    (onFile File.close).outcome ⟨.reader r stream, host, t⟩ =
      (((Host.trace (.readerClosed r.name)).outcome host).1,
        ⟨.reader { r with closed := true } stream,
          ((Host.trace (.readerClosed r.name)).outcome host).2, t⟩) := by
  rw [onFile, Action.outcome_on, File.outcome_close_reader, Reader.outcome_close, hr]
  rfl

end Scan

/-! ### Line after line -/

variable [Platform]

/-- What is done for the lines of a list, one after another. -/
def countLines : List Text → Tally → Action Host Tally
  | [], t => pure t
  | line :: lines, t => do countLines lines (← countLine line t)

theorem countLines_append (lines later : List Text) (t : Tally) :
    countLines (lines ++ later) t = countLines lines t >>= countLines later := by
  induction lines generalizing t with
  | nil => rw [List.nil_append, countLines, pure_bind]
  | cons line lines ih => simp only [List.cons_append, countLines, ih, bind_assoc]

theorem keeps_countLine (line : Text) (t : Tally) :
    (countLine line t).Keeps (Host.OnSink d e) := by
  intro host h
  rw [countLine]
  dsimp only
  split
  · exact h
  · refine Action.Keeps.bind (fun _ h => by rwa [Action.outcome_ofExcept]) (fun shown => ?_) host h
    refine Action.Keeps.bind (Host.keeps_print _) fun _ => ?_
    split
    · exact Action.Keeps.bind (fun _ h => by rwa [Action.outcome_ofExcept]) fun _ _ h => h
    · exact fun _ h => h

theorem keeps_countLines (lines : List Text) (t : Tally) :
    (countLines lines t).Keeps (Host.OnSink d e) := by
  induction lines generalizing t with
  | nil => exact fun _ h => h
  | cons line lines ih => exact Action.Keeps.bind (keeps_countLine line t) ih

namespace Scan

variable {r : Reader} {rest : Text} {stream : InStream} {host : Host}

/-- Going through the lines that a stream offers does what is done for the list of them. -/
theorem exists_outcome_lines (hr : r.closed = false) {n : Nat} (hn : rest.lines.length ≤ n)
    (hs : stream.Offers d rest) (hh : host.OnSink d e) (t : Tally) :
    let counted := (countLines rest.lines t).outcome host
    ∃ stream' t', (lines n).outcome ⟨.reader r stream, host, t⟩ =
        (counted.1.map fun _ => (), ⟨.reader r stream', counted.2, t'⟩) ∧
      ∀ found, counted.1 = .ok found → t' = found := by
  induction n generalizing rest stream host t with
  | zero =>
    rw [List.length_eq_zero_iff.1 (Nat.le_zero.1 hn)]
    exact ⟨stream, t, rfl, fun found h => Except.ok.inj h⟩
  | succ n ih =>
    rw [← hh.disk_eq] at hs
    obtain ⟨stream', hs', hl⟩ := exists_outcome_readLine hr hs t
    have ht := Text.lines_afterLine rest
    rw [lines]
    simp only [Action.outcome_bind, hl]
    rcases hlines : rest.lines with _ | ⟨line, later⟩
    · exact ⟨stream', t, rfl, fun found h => Except.ok.inj h⟩
    · rw [hlines] at hn ht
      have hk := keeps_countLine line t host hh
      simp only [List.head?_cons, countLines, Action.outcome_bind, Action.outcome_get,
        Action.outcome_on]
      generalize (countLine line t).outcome host = left at hk
      obtain ⟨_ | t₁, host₁⟩ := left
      · exact ⟨stream', t, rfl, nofun⟩
      · rw [hh.disk_eq] at hs'
        have hi := ih (by rw [ht]; simpa using hn) hs' hk t₁
        rw [ht] at hi
        exact hi

/-- However going through the lines of a reader ends, the reader is closed after that, with a trace
if the settings are well-formed. -/
theorem outcome_withClosing {name : Text} {left : InStream} {settings : Settings} {t t' : Tally}
    {result : Except Fault Unit} {host' : Host} (he : host'.environment.settings = .ok settings)
    (hl : allLines.outcome ⟨.ofInput name stream, host, t⟩ =
      (result, ⟨.reader (.opened name) left, host', t'⟩)) :
    (withClosing allLines (onFile File.close)).outcome ⟨.ofInput name stream, host, t⟩ =
      (result, ⟨.reader ⟨name, true⟩ left, ((Host.trace (.readerClosed name)).outcome host').2,
        t'⟩) := by
  have hr : ((Host.trace (.readerClosed name)).outcome host').1 = .ok () := by
    rw [Host.fst_outcome_trace, he]
    rfl
  rw [ScriptBase.outcome_withClosing, hl]
  dsimp only
  rw [outcome_close (r := .opened name) rfl]
  dsimp only [Reader.opened]
  rw [hr]
  rfl

/-- With well-formed settings, all lines are counted and the file is closed after that. -/
theorem exists_outcome_withClosing (name : Text) {content : Text} {p : Path} {settings : Settings}
    (ho : (InStream.ofPath p).Offers d content) (he : e.settings = .ok settings)
    (hh : host.OnSink d e) (t : Tally) :
    let counted := (countLines content.lines t).outcome host
    ∃ file t', (withClosing allLines (onFile File.close)).outcome
          ⟨.ofInput name (.ofPath p), host, t⟩ =
        (counted.1.map fun _ => (),
          ⟨file, ((Host.trace (.readerClosed name)).outcome counted.2).2, t'⟩) ∧
      ∀ found, counted.1 = .ok found → t' = found := by
  intro counted
  have hn : content.lines.length ≤ ((InStream.ofPath p).visible host.disk).length + 1 := by
    rw [hh.disk_eq, ho.visible_eq]
    exact Nat.le_succ_of_le content.length_lines_le
  obtain ⟨stream', t', hl, ht⟩ :=
    exists_outcome_lines (r := .opened name) rfl hn ho hh t
  have hc := keeps_countLines content.lines t host hh
  exact ⟨_, t', outcome_withClosing (hc.environment_eq ▸ he) hl, ht⟩

/-- A directory has a stream, and reading its first line fails. -/
theorem exists_outcome_allLines_of_directory (name : Text) {p : Path}
    (hd : host.disk.isDirectory p = true) (t : Tally) :
    ∃ stream, allLines.outcome ⟨.ofInput name (.ofPath p), host, t⟩ =
      (.error (.readFailed name), ⟨.reader (.opened name) stream, host, t⟩) := by
  obtain ⟨hl, hf⟩ := InStream.getLine_of_directory hd
  have hb : (File.ofInput name (.ofPath p)).lineBound host.disk =
      ((InStream.ofPath p).visible host.disk).length + 1 := rfl
  have hr : (onFile File.readLine).outcome ⟨.ofInput name (.ofPath p), host, t⟩ =
      (.error (.readFailed name),
        ⟨.reader (.opened name) ((InStream.ofPath p).getLine host.disk).2, host, t⟩) := by
    rw [onFile, Action.outcome_on, File.readLine, File.ofInput, File.outcome_onReader,
      Reader.outcome_readLine rfl, hl, hf]
    rfl
  refine ⟨((InStream.ofPath p).getLine host.disk).2, ?_⟩
  simp only [allLines, Action.outcome_bind, Action.outcome_get, hb, lines, hr]

end Scan

/-! ### A whole file -/

variable {host : Host} {path content : Text} {p : Path} {settings : Settings}

/-- If the file cannot be opened, nothing is done. -/
theorem outcome_report_of_open_error {fault : Fault} {host' : Host}
    (h : (Host.openReader path).outcome host = (.error fault, host')) :
    (report path).outcome host = (.error fault, host') := by
  have ho : (Host.openFile path OpenMode.default).outcome host = (.error fault, host') := h
  rw [report, Action.outcome_bind, ho]

/-- A path that leads nowhere cannot be opened. -/
theorem outcome_report_of_missing {error : SystemError}
    (hp : host.disk.locate path = .error error) :
    (report path).outcome host = (.error (.cannotOpen error path), host) := by
  refine outcome_report_of_open_error ?_
  rw [Host.outcome_openReader, hp]

/-- With malformed settings, nothing is done. -/
theorem outcome_report_of_malformed {fault : Fault} (hp : host.disk.locate path = .ok p)
    (hs : host.environment.settings = .error fault) :
    (report path).outcome host = (.error fault, host) := by
  refine outcome_report_of_open_error ?_
  rw [Host.outcome_openReader, hp, Host.outcome_trace, hs]
  rfl

/-- With well-formed settings, a path is opened with a trace, and the totals are printed unless
going through its lines has raised a fault. -/
theorem outcome_report_of_closed {result : Except Fault Unit} {file : File} {closed : Host}
    {t : Tally} (hp : host.disk.locate path = .ok p)
    (hs : host.environment.settings = .ok settings)
    (hw : (withClosing Scan.allLines (Scan.onFile File.close)).outcome
        ⟨.ofInput path (.ofPath p), ((Host.trace (.opened path .reading)).outcome host).2, .zero⟩ =
      (result, ⟨file, closed, t⟩)) :
    (report path).outcome host =
      (Action.ofExcept result >>= fun _ => printTally t).outcome closed := by
  have ho : (Host.openFile path OpenMode.default).outcome host =
      (.ok (.ofInput path (.ofPath p)),
        ((Host.trace (.opened path .reading)).outcome host).2) := by
    change (Host.openReader path).outcome host = _
    rw [Host.outcome_openReader, hp, hs]
    rfl
  simp only [report, Action.outcome_bind, ho, Action.outcome_get, hw, Action.outcome_set]

/-- With well-formed settings, the lines of what a path offers are counted between a trace that it
was opened and a trace that it was closed, and the totals are printed unless a line has raised a
fault. -/
theorem outcome_report (hp : host.disk.locate path = .ok p)
    (hc : (InStream.ofPath p).Offers host.disk content)
    (hs : host.environment.settings = .ok settings) (hk : ∃ k, host.output.target = .sink k) :
    let opened := ((Host.trace (.opened path .reading)).outcome host).2
    let counted := (countLines content.lines .zero).outcome opened
    let closed := ((Host.trace (.readerClosed path)).outcome counted.2).2
    (report path).outcome host =
      match counted.1 with
      | .ok t => (printTally t).outcome closed
      | .error fault => (.error fault, closed) := by
  intro opened counted closed
  have hh : opened.OnSink host.disk host.environment :=
    Host.keeps_trace _ host ⟨rfl, rfl, hk⟩
  obtain ⟨file, t', hw, ht⟩ := Scan.exists_outcome_withClosing path hc hs hh .zero
  rw [outcome_report_of_closed hp hs hw, Action.outcome_bind, Action.outcome_ofExcept]
  rcases hl : ((countLines content.lines .zero).outcome opened).1 with fault | found
  · simp only [Except.map, counted, closed]
  · simp only [Except.map, counted, closed, ht found hl]

/-- A directory is opened and closed with traces, and reading its first line fails. -/
theorem outcome_report_of_directory (hp : host.disk.locate path = .ok p)
    (hd : host.disk.isDirectory p = true) (hs : host.environment.settings = .ok settings) :
    (report path).outcome host =
      (.error (.readFailed path), ((Host.trace (.readerClosed path)).outcome
        ((Host.trace (.opened path .reading)).outcome host).2).2) := by
  have hd' : ((Host.trace (.opened path .reading)).outcome host).2.disk.isDirectory p = true := by
    rwa [Host.disk_trace]
  obtain ⟨stream, hl⟩ := Scan.exists_outcome_allLines_of_directory path hd' .zero
  have he : ((Host.trace (.opened path .reading)).outcome host).2.environment.settings =
      .ok settings := by
    rwa [Host.environment_trace]
  exact outcome_report_of_closed hp hs (Scan.outcome_withClosing he hl)

end LineStat

end ScriptBase

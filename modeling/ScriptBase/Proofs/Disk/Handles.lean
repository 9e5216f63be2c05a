import Mathlib.Data.List.Induction
import ScriptBase.Proofs.Disk.Opening
import ScriptBase.Proofs.Reader.Remaining
import ScriptBase.Proofs.Scope.Faults
import ScriptBase.Proofs.Writer.Filing

/-!
# Writers one after another on a path

A path is opened for writing or for appending again and again. Each time texts are written, with
flushes between them, and the writer comes to its end before the next one is opened: it is closed,
the block that uses it ends with a result or a fault, or it is dropped. What the file holds then is
told by the writers from the last one on that has emptied the file, and by what it held at first if
none has. A reader that is opened right after a flush reads all that was written up to the flush.

## Main definitions

* `ScriptBase.Disk.WritesTo`: what is written to the text of a path goes to a file.
* `ScriptBase.WriterHandle`, `ScriptBase.WriterHandle.run`: a writer from its opening to its end.
* `ScriptBase.WriterHandle.Leaves`: the text that is left by writers one after another.
* `ScriptBase.Host.ReadsBack`: a reader that is opened reads a text.

## Main results

* `ScriptBase.Host.exists_openFile_writer`: opening for writing or appending.
* `ScriptBase.WriterHandle.outcome_run`: one writer.
* `ScriptBase.WriterHandle.reads_back_after_handles`: writers one after another.
-/

namespace ScriptBase

/-! ### Paths of files -/

/-- What is written to the text of a path goes to a file: one that is there, or that is created
then. -/
structure Disk.WritesTo (d : Disk) (path : Text) (p : Path) : Prop where
  creates : ∃ d', d.create false path = .ok (p, d')
  isFile : d.node? p = none ∨ ∃ c, d.node? p = some (.file c)

namespace Disk.WritesTo

variable {d d' : Disk} {path : Text} {p : Path}

theorem of_extends (h : d.WritesTo path p) (hd : d'.Extends d) {c : Text}
    (hn : d'.node? p = some (.file c)) : d'.WritesTo path p where
  creates := by
    obtain ⟨_, hc⟩ := h.creates
    exact create_of_extends hc hd (.inr ⟨c, hn⟩) false
  isFile := .inr ⟨c, hn⟩

/-- Creating keeps the content of the file, or takes it away. -/
theorem exists_create (h : d.WritesTo path p) (truncating : Bool) :
    ∃ d', d.create truncating path = .ok (p, d') ∧
      d'.node? p = some (.file (if truncating then [] else d.content p)) := by
  obtain ⟨_, hc⟩ := h.creates
  obtain ⟨d', hd'⟩ := create_of_extends hc (.refl d) h.isFile truncating
  refine ⟨d', hd', ?_⟩
  obtain ⟨-, rfl⟩ := put_of_create hd'
  rcases h.isFile with hn | ⟨c, hn⟩
  · simp [getsEmptyFile, hn, content]
  · cases truncating <;> simp [getsEmptyFile, hn, content]

/-- The text of a path leads to the file that it is written to. -/
theorem locate (h : d.WritesTo path p) {c : Text} (hn : d.node? p = some (.file c)) :
    d.locate path = .ok p := by
  obtain ⟨d', hc⟩ := h.creates
  obtain ⟨-, hd⟩ := put_of_create hc
  have hl := locate_of_create hc
  rwa [hd, getsEmptyFile, hn] at hl

end Disk.WritesTo

namespace Host

variable {host : Host} {path mode : Text} {p : Path} {settings : Settings}

/-- A reader that is opened on the text of a path reads a text. -/
def ReadsBack (host : Host) (path content : Text) : Prop :=
  ∃ reader opened, (openFile path "r").outcome host = (.ok reader, opened) ∧
    (File.readAll.outcome (reader, opened)).1 = .ok content

/-- What a file holds is read back. -/
theorem readsBack_of_file (h : host.disk.WritesTo path p)
    (hs : host.environment.settings = .ok settings) {c : Text}
    (hn : host.disk.node? p = some (.file c)) : host.ReadsBack path c := by
  obtain ⟨opened, ho, hd⟩ := openReader_eq_ok (h.locate hn) hs
  rw [← hd] at hn
  refine ⟨_, opened, ho, ?_⟩
  rw [File.readAll, File.ofInput, File.outcome_onReader]
  exact (Reader.readAll_of_offers rfl (InStream.offers_ofPath hn)).1

/-- What a file is opened for if it is written. -/
def writingMode (appending : Bool) : OpenMode := if appending then .append else .write

/-- A file that is opened for writing is empty, and one that is opened for appending keeps what it
holds. -/
theorem exists_openFile_writer (h : host.disk.WritesTo path p)
    (hs : host.environment.settings = .ok settings) {appending : Bool}
    (hm : OpenMode.ofText? mode = some (writingMode appending)) :
    ∃ opened, (openFile path mode).outcome host =
        (.ok (.ofOutput path settings.bufferSize (.toPath p appending)), opened) ∧
      opened.environment = host.environment ∧ opened.disk.WritesTo path p ∧
      opened.disk.node? p =
        some (.file (if appending then host.disk.content p else [])) := by
  obtain ⟨d, hc, hn⟩ := h.exists_create (!appending)
  have ho : (openFile path mode).outcome host = (openWriter path appending).outcome host := by
    rw [openFile, hm]
    cases appending <;> rfl
  rw [outcome_openWriter, hc, hs] at ho
  refine ⟨_, ho, environment_trace _ _, ?_⟩
  rw [disk_trace]
  refine ⟨h.of_extends (Disk.extends_of_create hc) hn, hn.trans ?_⟩
  cases appending <;> rfl

end Host

/-! ### One writer -/

/-- How a writer comes to its end. -/
inductive HandleEnd where
  | closed
  /-- The block that uses the writer ends, with a result or a fault. -/
  | leftBlock (how : Handing) (result : Except Fault Unit)
  | dropped

/-- A writer that is opened in a mode, is used and comes to its end. -/
structure WriterHandle where
  mode : Text
  /-- Whether writing goes on at the end of the file, which loses its content otherwise. -/
  appending : Bool
  ofText?_mode : OpenMode.ofText? mode = some (Host.writingMode appending)
  /-- What is asked of the writer before its end. -/
  calls : List WriterCall
  close_notMem : .close ∉ calls
  ending : HandleEnd

namespace WriterHandle

/-- What a file holds once it is opened: nothing, or what it held if writing goes on behind that. -/
def atOpening (h : WriterHandle) (content : Text) : Text := if h.appending then content else []

/-- The text that is written. -/
def text (h : WriterHandle) : Text := h.calls.flatMap WriterCall.text

/-- What is asked of the writer up to its being dropped. -/
def use (h : WriterHandle) : FileAction Unit :=
  match h.ending with
  | .closed => do
    h.calls.forM WriterCall.onFile
    File.close
  | .leftBlock how result =>
    how.closing ()
      (fun _ => do
        h.calls.forM WriterCall.onFile
        Action.ofExcept result)
      fun _ => File.close
  | .dropped => h.calls.forM WriterCall.onFile

/-- The fault of the block that uses the writer, if there is one. -/
def result (h : WriterHandle) : Except Fault Unit :=
  match h.ending with
  | .leftBlock _ result => result
  | .closed | .dropped => .ok ()

/-- Opens a writer, uses it and drops it. -/
def run (path : Text) (h : WriterHandle) : Action Host Unit := do
  let file ← Host.openFile path h.mode
  let host ← get
  let (result, file, host) := h.use.outcome (file, host)
  set host
  file.drop
  Action.ofExcept result

/-- The text that is left by writers one after another: the texts of all writers from the last one
on that has emptied the file, or of all behind what there was at first. -/
inductive Leaves (initial : Text) : List WriterHandle → Text → Prop
  | kept {handles} (ha : ∀ h ∈ handles, h.appending = true) :
      Leaves initial handles (initial ++ handles.flatMap text)
  | emptied (before : List WriterHandle) {h later} (hw : h.appending = false)
      (ha : ∀ h ∈ later, h.appending = true) :
      Leaves initial (before ++ h :: later) ((h :: later).flatMap text)

/-- Writers that all go on at the end leave their texts behind what there was. -/
theorem foldl_of_appending {handles : List WriterHandle} (ha : ∀ h ∈ handles, h.appending = true)
    (content : Text) :
    handles.foldl (fun content h => h.atOpening content ++ h.text) content =
      content ++ handles.flatMap text := by
  induction handles generalizing content with
  | nil => exact (List.append_nil content).symm
  | cons h handles ih =>
    obtain ⟨hh, hhandles⟩ := List.forall_mem_cons.1 ha
    rw [List.foldl_cons, ih hhandles, List.flatMap_cons, atOpening, hh, ← List.append_assoc]
    rfl

/-- No other text is left than that which the writers leave in their turn. -/
theorem Leaves.eq_foldl {initial content : Text} {handles : List WriterHandle}
    (hl : Leaves initial handles content) :
    content = handles.foldl (fun content h => h.atOpening content ++ h.text) initial := by
  cases hl with
  | kept ha => exact (foldl_of_appending ha initial).symm
  | emptied before hw ha =>
    rw [List.foldl_append, List.foldl_cons, foldl_of_appending ha, atOpening, hw,
      List.flatMap_cons]
    rfl

theorem Leaves.concat {initial content : Text} {handles : List WriterHandle}
    (hl : Leaves initial handles content) (h : WriterHandle) :
    Leaves initial (handles ++ [h]) (h.atOpening content ++ h.text) := by
  rw [atOpening]
  cases hh : h.appending with
  | false =>
    have he : Leaves initial _ _ := emptied handles hh (List.forall_mem_nil _)
    simpa using he
  | true =>
    have hlast : ∀ later : List WriterHandle, (∀ h ∈ later, h.appending = true) →
        ∀ h' ∈ later ++ [h], h'.appending = true := by
      intro later ha h' hm
      rcases List.mem_append.1 hm with hm | hm
      · exact ha h' hm
      · rwa [List.mem_singleton.1 hm]
    cases hl with
    | kept ha =>
      have hk : Leaves initial _ _ := kept (hlast _ ha)
      simpa using hk
    | emptied before hw ha =>
      have he : Leaves initial _ _ := emptied before hw (hlast _ ha)
      simpa using he

/-! ### Its use and its end -/

open Writing WriterCall

variable {base : Disk} {p : Path} {c : Text} {w : Writing}

/-- A disk that extends another one and on which a file holds a text. -/
def HoldsAt (base : Disk) (p : Path) (content : Text) (d : Disk) : Prop :=
  d.Extends base ∧ d.node? p = some (.file content)

/-- The writer behind the calls, which have all returned. -/
theorem sound_after (h : WriterHandle) (hw : Sound (.filing base p c) [] w) :
    (h.calls.forM onFile).outcome w.asFile = (.ok (), (after h.calls w).asFile) ∧
      Sound (.filing base p c) h.text (after h.calls w) ∧
      (after h.calls w).host.environment = w.host.environment := by
  obtain ⟨hr, hs⟩ := sound_each (Ledger.healthy_filing base p c) h.calls h.close_notMem hw
  have he := each_onFile h.calls w
  rw [List.nil_append, written_of_close_notMem h.close_notMem] at hs
  exact ⟨by rw [Action.outcome_forM_of_each (by rw [he]; exact hr), he]; rfl, hs,
    environment_each h.calls w⟩

/-- The file of a stream that is closed holds what the stream was given, behind what it held. -/
theorem holdsAt_close (t : Text) (s : OutStream) (d : Disk)
    (h : (Ledger.filing base p c).holds s d t) : HoldsAt base p (c ++ t) (s.close d).2 :=
  ⟨h.close.1.disk, h.close.2⟩

/-- A close that delivers what was written leaves nothing to be done when the writer is dropped. -/
theorem holdsAt_of_closed (h : WriterHandle) (hw : Sound (.filing base p c) [] w) :
    let left := File.close.outcome (after h.calls w).asFile
    let dropped := left.2.1.drop.outcome left.2.2
    left.1 = .ok () ∧ dropped.1 = .ok () ∧ dropped.2.environment = w.host.environment ∧
      HoldsAt base p (c ++ h.text) dropped.2.disk := by
  obtain ⟨-, hs, he⟩ := h.sound_after hw
  have hL : (Ledger.filing base p c).Healthy := Ledger.healthy_filing base p c
  have hclose : File.close.outcome (after h.calls w).asFile = _ := outcome_onFile .close _
  have hdrop : drop.outcome (close.outcome (after h.calls w)).2 = _ :=
    outcome_drop_of_closed (closed_close _)
  rw [hclose, outcome_action_of_sound hL .close hs]
  refine ⟨rfl, ?_⟩
  change (drop.outcome (close.outcome (after h.calls w)).2).1 = _ ∧
    (drop.outcome (close.outcome (after h.calls w)).2).2.host.environment = _ ∧ HoldsAt _ _ _
      (drop.outcome (close.outcome (after h.calls w)).2).2.host.disk
  rw [hdrop]
  exact ⟨rfl, (environment_outcome_action .close _).trans he,
    of_close (q := fun _ d => HoldsAt base p (c ++ h.text) d) hL (holdsAt_close h.text) hs.isOpen
      hs.accounted⟩

/-- A writer that is used and dropped raises no fault but that of its block, and the file holds what
was written behind what it held before. -/
theorem outcome_use (h : WriterHandle) (hw : Sound (.filing base p c) [] w) :
    let left := h.use.outcome w.asFile
    let dropped := left.2.1.drop.outcome left.2.2
    left.1 = h.result ∧ dropped.1 = .ok () ∧ dropped.2.environment = w.host.environment ∧
      HoldsAt base p (c ++ h.text) dropped.2.disk := by
  obtain ⟨hcalls, hs, he⟩ := h.sound_after hw
  obtain ⟨hclose, hheld⟩ := h.holdsAt_of_closed hw
  rw [use, result]
  cases h.ending with
  | closed =>
    dsimp only
    rw [Action.outcome_bind, hcalls]
    exact ⟨hclose, hheld⟩
  | leftBlock how result =>
    dsimp only
    rw [how.closing_eq, outcome_withClosing, Action.outcome_bind, hcalls]
    dsimp only
    rw [Action.outcome_ofExcept, hclose]
    exact ⟨rfl, hheld⟩
  | dropped =>
    dsimp only
    rw [hcalls]
    obtain ⟨hk, hd⟩ := of_drop (q := fun _ d => HoldsAt base p (c ++ h.text) d)
      (Ledger.healthy_filing base p c) (holdsAt_close h.text) hs.isOpen hs.accounted
    exact ⟨rfl, hk, (unaffected_environment w.host.environment).dropped he, hd⟩

/-! ### Writers one after another -/

variable {host : Host} {path : Text} {settings : Settings}

/-- A writer that was opened is sound. -/
theorem exists_sound_opened (h : WriterHandle) (hp : host.disk.WritesTo path p)
    (hs : host.environment.settings = .ok settings) :
    ∃ w : Writing, (Host.openFile path h.mode).outcome host = (.ok w.asFile.1, w.asFile.2) ∧
      w.host.environment = host.environment ∧ w.host.disk.WritesTo path p ∧
      Sound (.filing w.host.disk p (h.atOpening (host.disk.content p))) [] w := by
  obtain ⟨opened, ho, he, hp', hn⟩ := Host.exists_openFile_writer hp hs h.ofText?_mode
  refine ⟨⟨.opened path settings.bufferSize, .toPath p h.appending, opened⟩, ho, he, hp',
    sound_toPath (by rw [he]; exact hs) hn h.appending ?_ path settings.bufferSize⟩
  cases h.appending with
  | true => exact .inl rfl
  | false => exact .inr rfl

theorem outcome_run_of_opened (h : WriterHandle) {file : File} {opened : Host}
    (ho : (Host.openFile path h.mode).outcome host = (.ok file, opened)) :
    let left := h.use.outcome (file, opened)
    let dropped := left.2.1.drop.outcome left.2.2
    dropped.1 = .ok () → (h.run path).outcome host = (left.1, dropped.2) := by
  intro left dropped hd
  have hdropped : left.2.1.drop.outcome left.2.2 = (.ok (), dropped.2) := Prod.ext hd rfl
  simp only [run, Action.outcome_bind, ho, Action.outcome_get, Action.outcome_set, left, hdropped,
    Action.outcome_ofExcept]

/-- A writer from its opening to its end raises no fault but that of its block. The file holds what
was written then, behind what it held once it was opened. -/
theorem outcome_run (h : WriterHandle) (hp : host.disk.WritesTo path p)
    (hs : host.environment.settings = .ok settings) :
    let left := (h.run path).outcome host
    left.1 = h.result ∧ left.2.environment = host.environment ∧ left.2.disk.WritesTo path p ∧
      left.2.disk.node? p = some (.file (h.atOpening (host.disk.content p) ++ h.text)) := by
  obtain ⟨w, ho, he, hp', hw⟩ := h.exists_sound_opened hp hs
  obtain ⟨hr, hk, he', hd, hn⟩ := h.outcome_use hw
  rw [outcome_run_of_opened h ho hk]
  exact ⟨hr, he'.trans he, hp'.of_extends hd hn, hn⟩

theorem holdsAt_flush (t : Text) (s : OutStream) (d : Disk)
    (h : (Ledger.filing base p c).holds s d t) : HoldsAt base p (c ++ t) (s.flush d).2 :=
  ⟨h.flush.1.disk, h.flush.2⟩

/-- A flush of a writer that was opened returns after the calls before it, and the file can be read
back then. -/
theorem reads_back_at_flush (h : WriterHandle) (hp : host.disk.WritesTo path p)
    (hs : host.environment.settings = .ok settings) :
    ∃ file opened, (Host.openFile path h.mode).outcome host = (.ok file, opened) ∧
      let flushed := Action.each onFile (h.calls ++ [.flush]) (file, opened)
      (∀ result ∈ flushed.1, result = .ok ()) ∧
        flushed.2.2.ReadsBack path (h.atOpening (host.disk.content p) ++ h.text) := by
  obtain ⟨w, ho, he, hp', hw⟩ := h.exists_sound_opened hp hs
  refine ⟨_, _, ho, ?_⟩
  have hL : (Ledger.filing w.host.disk p (h.atOpening (host.disk.content p))).Healthy :=
    Ledger.healthy_filing _ _ _
  have hcalls : WriterCall.close ∉ h.calls ++ [.flush] := by simp [h.close_notMem]
  have hleft : (Action.each action (h.calls ++ [.flush]) w).2 =
      (flush.outcome (after h.calls w)).2 := by
    rw [Action.each_append]
    rfl
  obtain ⟨-, hsound, he'⟩ := h.sound_after hw
  obtain ⟨hd, hn⟩ := of_flush_ok
    (q := fun _ d => HoldsAt w.host.disk p (h.atOpening (host.disk.content p) ++ h.text) d)
    (holdsAt_flush h.text) hsound.accounted
    (Prod.ext (flush_eq_ok hL hsound.isOpen hsound.accounted) rfl)
  have hs' : (flush.outcome (after h.calls w)).2.host.environment.settings = .ok settings := by
    rw [show (flush.outcome (after h.calls w)).2.host.environment = _ from
      environment_outcome_action .flush _, he', he, hs]
  have heach : Action.each onFile (h.calls ++ [.flush]) (w.asFile.1, w.asFile.2) = _ :=
    each_onFile (h.calls ++ [.flush]) w
  rw [heach, hleft]
  exact ⟨(sound_each hL _ hcalls hw).1, Host.readsBack_of_file (hp'.of_extends hd hn) hs' hn⟩

/-- Writers one after another raise no faults but those of their blocks, and the file holds what is
left by them. -/
theorem each_run (handles : List WriterHandle) (hp : host.disk.WritesTo path p)
    (hs : host.environment.settings = .ok settings) :
    let left := Action.each (run path) handles host
    left.1 = handles.map result ∧ left.2.environment = host.environment ∧
      left.2.disk.WritesTo path p ∧
      Leaves (host.disk.content p) handles (left.2.disk.content p) ∧
      (handles ≠ [] → left.2.disk.node? p = some (.file (left.2.disk.content p))) := by
  induction handles using List.reverseRecOn with
  | nil =>
    refine ⟨rfl, rfl, hp, ?_, fun h => absurd rfl h⟩
    have hk : Leaves (host.disk.content p) [] _ := .kept (List.forall_mem_nil _)
    rwa [List.flatMap_nil, List.append_nil] at hk
  | append_singleton handles h ih =>
    obtain ⟨hr, he, hp', hl, -⟩ := ih
    obtain ⟨hr', he', hp'', hn⟩ := h.outcome_run hp' (by rw [he]; exact hs)
    have hc := Disk.content_of_file hn
    rw [Action.each_append]
    refine ⟨?_, he'.trans he, hp'', ?_, fun _ => hn.trans (by rw [← hc]; rfl)⟩
    · rw [hr, List.map_append]
      exact congrArg (handles.map result ++ [·]) hr'
    · have hleft := hl.concat h
      rw [← hc] at hleft
      exact hleft

/-- Writers on one path, each opened for writing or for appending, used, and closed, left by its
block or dropped before the next one is opened, leave in the file the texts of all writers from the
last one on that has emptied the file, or of all behind what there was at first, and no writer
raises a fault but that of its block. All this can be read back. Right after a flush of one more
writer, which returns, the texts up to the flush can be read back as well. -/
theorem reads_back_after_handles (handles : List WriterHandle) (hp : host.disk.WritesTo path p)
    (hs : host.environment.settings = .ok settings) :
    let left := Action.each (run path) handles host
    left.1 = handles.map result ∧
      (∃ content, Leaves (host.disk.content p) handles content ∧
        left.2.disk.content p = content ∧ (handles ≠ [] → left.2.ReadsBack path content)) ∧
      ∀ h : WriterHandle, ∃ file opened,
        (Host.openFile path h.mode).outcome left.2 = (.ok file, opened) ∧
        let flushed := Action.each onFile (h.calls ++ [.flush]) (file, opened)
        (∀ result ∈ flushed.1, result = .ok ()) ∧
          ∃ content, Leaves (host.disk.content p) (handles ++ [h]) content ∧
            flushed.2.2.ReadsBack path content := by
  intro left
  obtain ⟨hr, he, hp', hl, hn⟩ := each_run handles hp hs
  have hs' : left.2.environment.settings = .ok settings :=
    (congrArg Environment.settings he).trans hs
  refine ⟨hr, ⟨_, hl, rfl, fun hne => Host.readsBack_of_file hp' hs' (hn hne)⟩, fun h => ?_⟩
  obtain ⟨file, opened, ho, hok, hread⟩ := h.reads_back_at_flush hp' hs'
  exact ⟨file, opened, ho, hok, _, hl.concat h, hread⟩

/-- A file with a byte is emptied, gets three bytes from a block that raises a fault, and a fourth
one from a writer that is dropped. -/
theorem reads_back_after_two :
    let host := Host.start ⟨none, some [0x32]⟩
      ⟨Dict.ofLast [([], .directory), ([[0x66]], .file [9])], []⟩ none
    let stop : Fault := .raised .key [0x61]
    let emptying : WriterHandle :=
      ⟨"wb", false, rfl, [.write [1], .flush, .write [2, 3]], by simp,
        .leftBlock .reference (.error stop)⟩
    let appending : WriterHandle := ⟨"a", true, rfl, [.write [4]], by simp, .dropped⟩
    let left := Action.each (run [0x66]) [emptying, appending] host
    host.disk.WritesTo [0x66] [[0x66]] ∧ host.environment.settings = .ok ⟨false, 2⟩ ∧
      left.1 = [.error stop, .ok ()] ∧ left.2.ReadsBack [0x66] [1, 2, 3, 4] := by
  intro host stop emptying appending left
  have hp : host.disk.WritesTo [0x66] [[0x66]] := ⟨⟨_, rfl⟩, .inr ⟨[9], rfl⟩⟩
  have hs : host.environment.settings = .ok ⟨false, 2⟩ := rfl
  obtain ⟨hr, ⟨content, hl, -, hread⟩, -⟩ :=
    reads_back_after_handles [emptying, appending] hp hs
  obtain rfl : content = [1, 2, 3, 4] := hl.eq_foldl
  exact ⟨hp, hs, hr, hread (List.cons_ne_nil _ _)⟩

end WriterHandle

end ScriptBase

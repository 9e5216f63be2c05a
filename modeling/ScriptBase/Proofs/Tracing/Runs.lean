import ScriptBase.ClassName.Naming
import ScriptBase.LineStat
import ScriptBase.Proofs.Tracing.Silence
import ScriptBase.Session.Run

/-!
# Runs with and without traces

A script cannot tell whether it is traced. Sessions, the naming of classes and the line statistics
are run twice, on hosts that differ in the debug variable, whatever else their environment holds and
whatever stands on their disks: every step has the same outcome in both runs, and the disks and the
standard outputs are the same after them. If a step ends the process in one run, so it does in the
other. Both runs are compared with the one on the silenced host.

## Main definitions

* `ScriptBase.Session.silenced` and its like: a state with its host silenced.
* `ScriptBase.Host.LooksLike`: two hosts are the same but for their traces.

## Main results

* `ScriptBase.Session.commutes_perform`: the steps of a session commute with silencing.
* `ScriptBase.tracing_changes_diagnostics_only`: the two runs look alike.
-/

namespace ScriptBase

open ScriptBase.Action

/-! ### Sessions -/

namespace Session

/-- A session on the silenced host. -/
def silenced (s : Session) : Session := { s with host := s.host.silenced }

theorem commutes_checkRunning : checkRunning.Commutes silenced := by
  refine commutes_get_bind (fun _ => rfl) fun s => ?_
  rcases s.ended with _ | fault
  · exact commutes_pure ()
  · exact commutes_throw fault

theorem commutes_file (name : Text) : (file name).Commutes silenced := by
  refine commutes_checkRunning.bind fun _ => commutes_get_bind (fun _ => rfl) fun s => ?_
  rcases s.files.get? name with _ | file
  · exact commutes_throw _
  · exact commutes_pure file

theorem commutes_cursor (name : Text) : (cursor name).Commutes silenced := by
  refine commutes_get_bind (fun _ => rfl) fun s => ?_
  rcases s.cursors.get? name with _ | cursor
  · exact commutes_throw _
  · exact commutes_pure cursor

theorem commutes_mapM_cursor (name : Option Text) : (name.mapM cursor).Commutes silenced := by
  cases name with
  | none => exact commutes_pure none
  | some name => exact (commutes_cursor name).map some

theorem commutes_onHost {α : Type} {action : Action Host α} (h : action.Commutes Host.silenced) :
    (onHost action).Commutes silenced :=
  h.on (fun _ => rfl) fun _ _ => rfl

theorem commutes_onFile {α : Type} (name : Text) {action : FileAction α}
    (h : action.Commutes Host.silencedBeside) : (onFile name action).Commutes silenced :=
  (commutes_file name).bind fun _ => h.on (fun _ => rfl) fun _ _ => rfl

/-- A file that is dropped may trace that its bytes are lost, and whether that ends the process does
not hang on the wish for traces. -/
theorem commutes_discard (name : Text) : (discard name).Commutes silenced := by
  refine commutes_checkRunning.bind fun _ => commutes_get_bind (fun _ => rfl) fun s => ?_
  rcases s.files.get? name with _ | file
  · exact commutes_pure ()
  · refine Commutes.bind (commutes_modify fun _ => rfl) fun _ => ?_
    refine (commutes_onHost (File.commutes_drop file)).tryCatch fun fault => ?_
    exact Commutes.bind (commutes_modify fun _ => rfl) fun _ => commutes_throw fault

theorem commutes_keep (name : Text) (file : File) : (keep name file).Commutes silenced :=
  (commutes_discard name).bind fun _ => commutes_modify fun _ => rfl

theorem finish_silenced (s : Session) : s.silenced.finish = s.finish.silenced :=
  congrArg Prod.snd (Commutes.each commutes_discard _ s)

theorem commutes_goThrough (name : Text) (most : Option Nat) :
    (goThrough name most).Commutes silenced :=
  commutes_get_bind (fun _ => rfl) fun _ => (commutes_file name).bind fun _ =>
    commutes_onFile name (File.commutes_onReader _)

theorem commutes_advance (cursorName : Text) : (advance cursorName).Commutes silenced := by
  refine (commutes_cursor cursorName).bind fun c => ?_
  refine (commutes_onFile c.file (File.commutes_onReader _)).bind fun line => ?_
  exact commutes_modify fun _ => rfl

/-- A request is answered alike. Those that make, drop or close a file may trace, those that write
too. -/
theorem commutes_serve (r : Request) : (serve r).Commutes silenced := by
  cases r with
  | openFile name path mode =>
    refine (commutes_onHost (Host.commutes_openFile path mode)).bind fun file => ?_
    exact (commutes_keep name file).bind fun _ => commutes_pure _
  | makeReader name shown stream => exact (commutes_keep name _).bind fun _ => commutes_pure _
  | makeWriter name shown capacity stream =>
    cases capacity with
    | some capacity => exact (commutes_keep name _).bind fun _ => commutes_pure _
    | none =>
      refine (commutes_onHost (Host.commutes_fileOfOutput _ stream)).bind fun file => ?_
      exact (commutes_keep name file).bind fun _ => commutes_pure _
  | drop name =>
    refine (commutes_file name).bind fun _ => ?_
    exact (commutes_discard name).bind fun _ => commutes_pure _
  | readAll name =>
    exact (commutes_onFile name (File.commutes_onReader _)).bind fun _ => commutes_pure _
  | readLine name =>
    refine (commutes_onFile name (File.commutes_onReader _)).bind fun line => ?_
    cases line <;> exact commutes_pure _
  | readLines name =>
    exact (commutes_onFile name (File.commutes_onReader _)).bind fun _ => commutes_pure _
  | iterate name most | enumerate name most =>
    exact (commutes_goThrough name most).bind fun _ => commutes_pure _
  | write name s =>
    exact (commutes_onFile name (File.commutes_write s)).bind fun _ => commutes_pure _
  | print name vs =>
    have h : (File.print vs).Commutes Host.silencedBeside := File.commutes_write (printedLine vs)
    exact (commutes_onFile name h).bind fun _ => commutes_pure _
  | printOut vs => exact (commutes_onHost (Host.commutes_print vs)).bind fun _ => commutes_pure _
  | flush name => exact (commutes_onFile name File.commutes_flush).bind fun _ => commutes_pure _
  | close name => exact (commutes_onFile name File.commutes_close).bind fun _ => commutes_pure _
  | isClosed name | shownName name | isInstance name c =>
    exact (commutes_file name).bind fun _ => commutes_pure _
  | pending name =>
    refine (commutes_file name).bind fun file => ?_
    cases file.pending? <;> exact commutes_pure _
  | className name =>
    refine (commutes_file name).bind fun file => ?_
    exact (commutes_ofExcept _).bind fun _ => commutes_pure _
  | sink name =>
    refine (commutes_file name).bind fun file => ?_
    cases file with
    | reader r stream => exact commutes_throw _
    | writer w stream => exact commutes_pure _
  | rest name =>
    refine (commutes_file name).bind fun file => ?_
    cases file with
    | reader r stream => exact commutes_pure _
    | writer w stream => exact commutes_throw _
  | content path => exact commutes_get_bind (fun _ => rfl) fun _ => commutes_pure _
  | beginLines name cursor =>
    refine (commutes_onFile name (File.commutes_onReader _)).bind fun line => ?_
    exact Commutes.bind (commutes_modify fun _ => rfl) fun _ => commutes_pure _
  | nextLine cursor => exact (commutes_advance cursor).bind fun _ => commutes_pure _
  | copyCursor name target =>
    refine (commutes_cursor name).bind fun c => ?_
    exact Commutes.bind (commutes_modify fun _ => rfl) fun _ => commutes_pure _
  | cursorLine name =>
    refine (commutes_cursor name).bind fun c => ?_
    cases c.line <;> exact commutes_pure _
  | sameCursor name other =>
    refine (commutes_mapM_cursor name).bind fun a => ?_
    exact (commutes_mapM_cursor other).bind fun b => commutes_pure _
  | raise fault => exact commutes_throw fault

/-! ### Blocks -/

/-- A block on the silenced host. -/
def BlockState.silenced (s : BlockState) : BlockState := { s with session := s.session.silenced }

theorem commutes_inBlock {α : Type} {action : Action Session α} (h : action.Commutes silenced) :
    (inBlock action).Commutes BlockState.silenced :=
  h.on (fun _ => rfl) fun _ _ => rfl

theorem commutes_guarded (name : Text) (file : BlockFile) {block : Action BlockState Unit}
    (hb : block.Commutes BlockState.silenced) :
    (guarded name file block).Commutes BlockState.silenced := by
  have hclose : (inBlock (onFile name File.close)).Commutes BlockState.silenced :=
    commutes_inBlock (commutes_onFile name File.commutes_close)
  have hclosing := commutes_withClosing hb hclose
  cases file with
  | referenced => exact hclosing
  | owned =>
    refine commutes_get_bind (fun _ => rfl) fun s => ?_
    rcases s.session.files.get? name with _ | _
    · exact commutes_throw _
    · exact hclosing
  | opened path mode =>
    have hdiscard := commutes_inBlock (commutes_discard name)
    refine Commutes.bind ?_ fun file => Commutes.bind ?_ fun _ => ?_
    · exact commutes_inBlock (commutes_onHost (Host.commutes_openFile path mode))
    · exact commutes_inBlock (commutes_keep name file)
    · exact commutes_withClosing hclosing hdiscard

theorem commutes_useFile (name : Text) (file : BlockFile) {block : Action BlockState Unit}
    (hb : block.Commutes BlockState.silenced) : (useFile name file block).Commutes silenced := by
  have hu (s : Session) : (useFile name file block).outcome s =
      let left := (guarded name file block).outcome ⟨s, []⟩
      (left.2.answer left.1, left.2.session) := rfl
  rw [commutes_iff]
  intro s
  have hs : (guarded name file block).outcome ⟨s.silenced, []⟩ =
      (((guarded name file block).outcome ⟨s, []⟩).1,
        ((guarded name file block).outcome ⟨s, []⟩).2.silenced) :=
    commutes_iff.1 (commutes_guarded name file hb) ⟨s, []⟩
  rw [hu, hu, hs]
  rfl

mutual

/-- Every step commutes with silencing, a block because its steps do. -/
theorem commutes_perform : ∀ step : Step, (perform step).Commutes silenced
  | .request r => commutes_serve r
  | .block name file steps => commutes_useFile name file (commutes_performBlock steps)

theorem commutes_performBlock :
    ∀ steps : List Step, (performBlock steps).Commutes BlockState.silenced
  | [] => commutes_pure ()
  | step :: steps =>
    (commutes_inBlock (commutes_perform step)).bind fun _ =>
      Commutes.bind (commutes_modify fun _ => rfl) fun _ => commutes_performBlock steps

end

/-- The process ends at the same step, if at any. -/
theorem performAll_silenced (steps : List Step) (s : Session) :
    performAll steps s.silenced = ((performAll steps s).1, (performAll steps s).2.silenced) := by
  induction steps generalizing s with
  | nil => rfl
  | cons step steps ih =>
    have he (t : Session) : t.silenced.ended = t.ended := rfl
    simp only [performAll, commutes_iff.1 (commutes_perform step) s, ih, he]
    split <;> rfl

end Session

/-! ### Names of classes -/

namespace Naming

/-- The names of classes on the silenced host. -/
def silenced (s : Naming) : Naming := { s with host := s.host.silenced }

/-- A class is traced before its name is kept. -/
theorem commutes_assign (c : Class) (name : Text) :
    (ClassNames.assign c name).Commutes Host.silencedBeside := by
  refine Commutes.bind ?_ fun _ => commutes_modify fun _ => rfl
  exact (Host.commutes_trace _).on (fun _ => rfl) fun _ _ => rfl

theorem commutes_perform (step : NamingStep) : (perform step).Commutes silenced := by
  cases step with
  | assign c name =>
    refine Commutes.bind ?_ fun _ => commutes_pure _
    exact (commutes_assign c name).on (fun _ => rfl) fun _ _ => rfl
  | name c =>
    refine commutes_get_bind (fun _ => rfl) fun s => ?_
    exact (commutes_ofExcept _).bind fun _ => commutes_pure _
  | isNamed c => exact commutes_get_bind (fun _ => rfl) fun s => commutes_pure _
  | same c d | isInstance c d => exact commutes_pure _

theorem performAll_silenced (steps : List NamingStep) (s : Naming) :
    performAll steps s.silenced = ((performAll steps s).1, (performAll steps s).2.silenced) :=
  Commutes.each commutes_perform steps s

end Naming

/-! ### Line statistics -/

namespace LineStat

theorem commutes_countLine [Platform] (line : Text) (t : Tally) :
    (countLine line t).Commutes Host.silenced := by
  refine Commutes.ite (commutes_pure _) ((commutes_ofExcept _).bind fun shown => ?_)
  refine (Host.commutes_print _).bind fun _ => Commutes.ite ?_ (commutes_pure _)
  exact (commutes_ofExcept _).bind fun _ => commutes_pure _

namespace Scan

/-- A scan on the silenced host. -/
def silenced (s : Scan) : Scan := { s with host := s.host.silenced }

theorem commutes_onFile {α : Type} {action : FileAction α}
    (h : action.Commutes Host.silencedBeside) : (onFile action).Commutes silenced :=
  h.on (fun _ => rfl) fun _ _ => rfl

theorem commutes_lines [Platform] : ∀ n : Nat, (lines n).Commutes silenced
  | 0 => commutes_pure ()
  | n + 1 => by
    refine (commutes_onFile (File.commutes_onReader _)).bind fun line => ?_
    rcases line with _ | line
    · exact commutes_pure ()
    · refine commutes_get_bind (fun _ => rfl) fun s => ?_
      refine Commutes.bind ?_ fun t => ?_
      · exact (commutes_countLine line s.tally).on (fun _ => rfl) fun _ _ => rfl
      · exact Commutes.bind (commutes_modify fun _ => rfl) fun _ => commutes_lines n

theorem commutes_allLines [Platform] : allLines.Commutes silenced :=
  commutes_get_bind (fun _ => rfl) fun _ => commutes_lines _

end Scan

theorem commutes_printTally (t : Tally) : (printTally t).Commutes Host.silenced := by
  refine (Host.commutes_print _).bind fun _ => Commutes.ite ?_ (commutes_pure _)
  exact (commutes_ofExcept _).bind fun sum => Host.commutes_print _

theorem commutes_report [Platform] (path : Text) : (report path).Commutes Host.silenced := by
  refine (Host.commutes_openFile path OpenMode.default).bind fun file => ?_
  rw [commutes_iff]
  intro host
  let scanned := withClosing Scan.allLines (Scan.onFile File.close)
  have hscan : scanned.Commutes Scan.silenced :=
    commutes_withClosing Scan.commutes_allLines (Scan.commutes_onFile File.commutes_close)
  have hs : scanned.outcome ⟨file, host.silenced, .zero⟩ =
      ((scanned.outcome ⟨file, host, .zero⟩).1, (scanned.outcome ⟨file, host, .zero⟩).2.silenced) :=
    commutes_iff.1 hscan ⟨file, host, .zero⟩
  rw [outcome_bind, outcome_bind, outcome_get, outcome_get]
  dsimp only
  rw [hs]
  rcases scanned.outcome ⟨file, host, .zero⟩ with ⟨fault | _, scan⟩
  · rfl
  · exact commutes_iff.1 (commutes_printTally scan.tally) scan.host

/-- The tool ends with the same code on the silenced host, and leaves that the same but for what it
says of a fault. -/
theorem run_silenced [Platform] (args : List Text) (host : Host) :
    (run args host.silenced).1 = (run args host).1 ∧
      (run args host.silenced).2.silenced = (run args host).2.silenced := by
  rcases args with _ | ⟨path, _ | ⟨_, _⟩⟩
  · exact ⟨rfl, rfl⟩
  · unfold run
    dsimp only
    rw [commutes_iff.1 (commutes_report path.throughNul) host]
    rcases (report path.throughNul).outcome host with ⟨fault | _, host'⟩
    · exact ⟨rfl, rfl⟩
    · exact ⟨rfl, rfl⟩
  · exact ⟨rfl, rfl⟩

end LineStat

/-! ### Two runs -/

/-- Two hosts *look alike* if their disks and their standard outputs are the same. Their settings
and their traces may differ. -/
structure Host.LooksLike (a b : Host) : Prop where
  disk_eq : a.disk = b.disk
  output_eq : a.output = b.output

theorem Host.looksLike_of_silenced_eq {a b : Host} (h : a.silenced = b.silenced) :
    a.LooksLike b := by
  constructor
  · rw [← disk_silenced a, h, disk_silenced]
  · rw [← output_silenced a, h, output_silenced]

/-- Whatever the debug variable is, all steps of a session have the same results and raise the same
faults, and so have the steps that name classes; the process of a session ends at the same step and
by the same fault, if a file that is dropped ends it; the line statistics raise the same fault, if
any, and end with the same code; and the files and the standard output are the same after the runs.
Only the diagnostics may differ. -/
theorem tracing_changes_diagnostics_only [Platform] (host : Host)
    (debug debug' : Option Text) :
    (∀ steps : List Step,
      let run := fun d => Session.performAll steps (.start (host.withDebug d))
      (run debug).1 = (run debug').1 ∧
        (run debug).2.finish.ended = (run debug').2.finish.ended ∧
        (run debug).2.finish.host.LooksLike (run debug').2.finish.host) ∧
    (∀ steps : List NamingStep,
      let run := fun d => Naming.performAll steps (.start (host.withDebug d))
      (run debug).1 = (run debug').1 ∧ (run debug).2.host.LooksLike (run debug').2.host) ∧
    (∀ path : Text,
      let report := fun d => (LineStat.report path).outcome (host.withDebug d)
      (report debug).1 = (report debug').1) ∧
    ∀ args : List Text,
      let run := fun d => LineStat.run args (host.withDebug d)
      (run debug).1 = (run debug').1 ∧ (run debug).2.LooksLike (run debug').2 := by
  refine ⟨fun steps => ?_, fun steps => ?_, fun path => ?_, fun args => ?_⟩
  · intro run
    have h d : Session.performAll steps (.start host.silenced) = ((run d).1, (run d).2.silenced) :=
      Session.performAll_silenced steps (.start (host.withDebug d))
    obtain ⟨hr, hs⟩ := Prod.ext_iff.1 ((h debug).symm.trans (h debug'))
    have hf := congrArg Session.finish hs
    rw [Session.finish_silenced, Session.finish_silenced] at hf
    have he : (run debug).2.finish.silenced.ended = (run debug').2.finish.silenced.ended :=
      congrArg Session.ended hf
    exact ⟨hr, he, Host.looksLike_of_silenced_eq (congrArg Session.host hf)⟩
  · intro run
    have h d : Naming.performAll steps (.start host.silenced) = ((run d).1, (run d).2.silenced) :=
      Naming.performAll_silenced steps (.start (host.withDebug d))
    obtain ⟨hr, hs⟩ := Prod.ext_iff.1 ((h debug).symm.trans (h debug'))
    exact ⟨hr, Host.looksLike_of_silenced_eq (congrArg Naming.host hs)⟩
  · intro report
    have h d : (LineStat.report path).outcome host.silenced =
        ((report d).1, (report d).2.silenced) :=
      commutes_iff.1 (LineStat.commutes_report path) (host.withDebug d)
    exact (Prod.ext_iff.1 ((h debug).symm.trans (h debug'))).1
  · intro run
    obtain ⟨hr, hs⟩ := LineStat.run_silenced args (host.withDebug debug)
    obtain ⟨hr', hs'⟩ := LineStat.run_silenced args (host.withDebug debug')
    exact ⟨hr.symm.trans hr', Host.looksLike_of_silenced_eq (hs.symm.trans hs')⟩

/-- Traces do differ: a class that is named is told of. -/
example :
    let named := fun d =>
      (Naming.performAll [.assign (.own "C") "Cat"] (.start (.start ⟨d, none⟩ .fresh none))).2.host
    (named none).diagnostics = [] ∧
      (named (some "1")).diagnostics = "[pyshim] register class Cat\n" := by
  decide +kernel

/-- With malformed settings, a writer whose byte is lost ends the process as it is dropped, and what
was to be printed after that is not. -/
example :
    let steps := [.makeWriter "f" none (some 0) (.toSink (some 0) false), .write "f" "a", .drop "f",
      .printOut [.text "b"]].map Step.request
    let (results, s) := Session.performAll steps (.start (.start ⟨none, some "x"⟩ .fresh none))
    results.length = 2 ∧ s.ended.isSome = true ∧ s.finish.host.output.received = [] := by
  decide +kernel

end ScriptBase

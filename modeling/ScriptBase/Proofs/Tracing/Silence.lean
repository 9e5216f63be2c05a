import ScriptBase.File.Basic

/-!
# Silenced hosts

A host is silenced by taking away its wish for traces and the traces that it has got. What a script
does is the same on the silenced host: an action on files gives the same result there, also where
that is a fault, and leaves the host that it leaves otherwise, silenced. Traces are asked for within
an operation, some of them where it is half done, and each asks for the settings, which may be
malformed; but whether they are does not hang on the wish for traces, and nothing else looks at it.

## Main definitions

* `ScriptBase.Host.silenced`: a host without traces and the wish for them.

## Main results

* `ScriptBase.Host.commutes_trace`: tracing commutes with silencing.
* `ScriptBase.Writing.commutes_write` and its like: so do the operations on a writer.
* `ScriptBase.File.commutes_onReader`, `ScriptBase.File.commutes_onWriter`: and those on a file.
-/

namespace ScriptBase

/-! ### Hosts -/

namespace Host

/-- A host with a debug variable. -/
def withDebug (host : Host) (debug : Option Text) : Host :=
  { host with environment := { host.environment with debug } }

/-- A host without a debug variable, and without traces. -/
def silenced (host : Host) : Host := { host.withDebug none with diagnostics := [] }

/-- What is kept beside a host, with the host silenced. -/
def silencedBeside {ρ : Type} (s : ρ × Host) : ρ × Host := (s.1, s.2.silenced)

@[simp] theorem disk_silenced (host : Host) : host.silenced.disk = host.disk := rfl

@[simp] theorem output_silenced (host : Host) : host.silenced.output = host.output := rfl

/-- A silenced host has the settings of the host, without traces; they are as malformed. -/
theorem settings_silenced (host : Host) :
    host.silenced.environment.settings =
      host.environment.settings.map fun settings => { settings with tracing := false } := by
  have hw : host.silenced.environment.writeBuffer = host.environment.writeBuffer := rfl
  unfold Environment.settings
  rw [hw]
  cases host.environment.writeBuffer <;> rfl

/-- A trace raises a fault exactly if the settings are malformed, and these are malformed with and
without the wish for traces. -/
theorem commutes_trace (e : Event) : (trace e).Commutes silenced := by
  rw [Action.commutes_iff]
  intro host
  rw [outcome_trace, outcome_trace, settings_silenced]
  rcases host.environment.settings with fault | ⟨_ | _, size⟩
  · rfl
  · rfl
  · rfl

theorem commutes_bufferSize : bufferSize.Commutes silenced := by
  rw [Action.commutes_iff]
  intro host
  rw [outcome_bufferSize, outcome_bufferSize, settings_silenced]
  cases host.environment.settings <;> rfl

theorem commutes_print (vs : List Value) : (print vs).Commutes silenced := by
  rw [Action.commutes_iff]
  intro host
  rw [outcome_print, outcome_print]
  rfl

theorem commutes_openReader (path : Text) : (openReader path).Commutes silenced := by
  refine Action.commutes_get_bind (fun _ => rfl) fun host => ?_
  rcases host.disk.locate path with error | p
  · exact Action.commutes_throw _
  · exact (commutes_trace _).bind fun _ => Action.commutes_pure _

/-- The disk is changed before the trace, which may raise a fault with and without traces. -/
theorem commutes_openWriter (path : Text) (appending : Bool) :
    (openWriter path appending).Commutes silenced := by
  refine Action.commutes_get_bind (fun _ => rfl) fun host => ?_
  rcases host.disk.create (!appending) path with error | ⟨p, disk⟩
  · exact Action.commutes_throw _
  · refine Action.Commutes.bind (Action.commutes_modify fun _ => rfl) fun _ => ?_
    refine (commutes_trace _).bind fun _ => commutes_bufferSize.bind fun _ => ?_
    exact Action.commutes_pure _

theorem commutes_openFile (path mode : Text) : (openFile path mode).Commutes silenced := by
  unfold openFile
  rcases OpenMode.ofText? mode with _ | _ | _ | _
  · exact Action.commutes_throw _
  · exact commutes_openReader path
  · exact commutes_openWriter path false
  · exact commutes_openWriter path true

theorem commutes_fileOfOutput (name : Text) (stream : OutStream) :
    (fileOfOutput name stream).Commutes silenced :=
  commutes_bufferSize.bind fun _ => Action.commutes_pure _

end Host

/-! ### Readers -/

theorem Reader.commutes_close : close.Commutes Host.silencedBeside := by
  rw [Action.commutes_iff]
  rintro ⟨r, host⟩
  have hs := Action.commutes_iff.1 (Host.commutes_trace (.readerClosed r.name)) host
  simp only [Host.silencedBeside, outcome_close, hs]
  split <;> rfl

/-! ### Writers -/

namespace Writing

open ScriptBase.Action

/-- A writer on the silenced host. -/
def silenced (w : Writing) : Writing := { w with host := w.host.silenced }

theorem commutes_checkOpen : checkOpen.Commutes silenced :=
  commutes_get_bind (fun _ => rfl) fun _ => (commutes_throw _).ite (commutes_pure _)

theorem commutes_trace (e : Event) : (trace e).Commutes silenced :=
  (Host.commutes_trace e).on (fun _ => rfl) fun _ _ => rfl

theorem commutes_deliver (bytes : Text) : (deliver bytes).Commutes silenced :=
  commutes_modify fun _ => rfl

theorem commutes_flushStream : flushStream.Commutes silenced := commutes_modify fun _ => rfl

theorem commutes_closeStream : closeStream.Commutes silenced := commutes_modify fun _ => rfl

theorem commutes_spill : spill.Commutes silenced := by
  refine commutes_get_bind (fun _ => rfl) fun w => (commutes_pure _).ite ?_
  refine (commutes_deliver _).bind fun _ => commutes_get_bind (fun _ => rfl) fun _ => ?_
  refine Commutes.ite ((commutes_throw _).bind fun _ => ?_) ?_
  · exact commutes_modify fun _ => rfl
  · exact commutes_modify fun _ => rfl

/-- A writer that holds too much traces that between holding the text and handing it on. -/
theorem commutes_write (s : Text) : (write s).Commutes silenced := by
  refine commutes_checkOpen.bind fun _ => Commutes.bind (commutes_modify fun _ => rfl) fun _ => ?_
  refine commutes_get_bind (fun _ => rfl) fun w => Commutes.ite ?_ (commutes_pure _)
  exact (commutes_trace _).bind fun _ => commutes_spill

theorem commutes_flush : flush.Commutes silenced := by
  refine commutes_checkOpen.bind fun _ => commutes_spill.bind fun _ => ?_
  refine commutes_flushStream.bind fun _ => commutes_get_bind (fun _ => rfl) fun w => ?_
  exact (commutes_throw _).ite (commutes_pure _)

theorem commutes_release : release.Commutes silenced := by
  refine Commutes.bind (commutes_modify fun _ => rfl) fun _ => ?_
  refine commutes_closeStream.bind fun _ => commutes_get_bind (fun _ => rfl) fun w => ?_
  exact (commutes_throw _).ite (commutes_pure _)

theorem commutes_close : close.Commutes silenced := by
  refine commutes_get_bind (fun _ => rfl) fun w => Commutes.ite (commutes_pure _) ?_
  refine Commutes.bind (commutes_flush.tryCatch fun fault => ?_) fun _ =>
    commutes_release.bind fun _ => ?_
  · refine Commutes.ite (commutes_release.bind fun _ => ?_) ?_
    · exact commutes_throw fault
    · exact commutes_throw fault
  · exact commutes_get_bind (fun _ => rfl) fun w => commutes_trace _

theorem commutes_handOver : handOver.Commutes silenced := by
  refine commutes_get_bind (fun _ => rfl) fun w => (commutes_pure _).ite ?_
  refine (commutes_deliver _).bind fun _ => commutes_flushStream.bind fun _ => ?_
  exact commutes_get_bind (fun _ => rfl) fun _ => (commutes_trace _).ite (commutes_pure _)

/-- Dropping a writer may trace that its bytes are lost, and a fault of that trace ends the process
with and without traces. -/
theorem commutes_drop : drop.Commutes silenced :=
  commutes_handOver.bind fun _ =>
    commutes_get_bind (fun _ => rfl) fun _ => (commutes_pure _).ite commutes_closeStream

end Writing

/-! ### Files -/

namespace File

open ScriptBase.Action Host

/-- What is read does not hang on the environment. -/
theorem commutes_onReader {α : Type} (action : Reader → Disk → Action InStream α) :
    (onReader action).Commutes silencedBeside := by
  rw [commutes_iff]
  rintro ⟨⟨r, stream⟩ | ⟨w, stream⟩, host⟩
  · simp only [silencedBeside, outcome_onReader, disk_silenced]
  · simp only [silencedBeside, outcome_onReader_writer]

theorem commutes_onWriter {α : Type} {action : Action Writing α}
    (h : action.Commutes Writing.silenced) : (onWriter action).Commutes silencedBeside := by
  rw [commutes_iff]
  rintro ⟨⟨r, stream⟩ | ⟨w, stream⟩, host⟩
  · simp only [silencedBeside, outcome_onWriter_reader]
  · have hs := commutes_iff.1 h ⟨w, stream, host⟩
    have ho := outcome_onWriter action ⟨w, stream, host⟩
    have ho' := outcome_onWriter action (Writing.silenced ⟨w, stream, host⟩)
    rw [hs] at ho'
    change _ = (((onWriter action).outcome _).1, silencedBeside ((onWriter action).outcome _).2)
    rw [ho]
    exact ho'

theorem commutes_write (s : Text) : (write s).Commutes silencedBeside :=
  commutes_onWriter (Writing.commutes_write s)

theorem commutes_flush : flush.Commutes silencedBeside := by
  refine commutes_get_bind (fun _ => rfl) fun s => ?_
  rcases s.1 with ⟨r, stream⟩ | ⟨w, stream⟩
  · exact (commutes_throw _).ite (commutes_pure _)
  · exact commutes_onWriter Writing.commutes_flush

theorem commutes_close : close.Commutes silencedBeside := by
  rw [commutes_iff]
  rintro ⟨⟨r, stream⟩ | ⟨w, stream⟩, host⟩
  · have hs := commutes_iff.1 Reader.commutes_close (r, host)
    simp only [silencedBeside, outcome_close_reader] at hs ⊢
    rw [hs]
  · exact commutes_iff.1 (commutes_onWriter Writing.commutes_close) (writer w stream, host)

theorem commutes_drop (file : File) : file.drop.Commutes Host.silenced := by
  cases file with
  | reader r stream => exact commutes_pure ()
  | writer w stream => exact Writing.commutes_drop.on (fun _ => rfl) fun _ _ => rfl

end File

end ScriptBase

import ScriptBase.Action
import ScriptBase.Settings
import ScriptBase.Stream.Output
import ScriptBase.Value.Render

/-!
# The host of a script

What a script runs on: an environment with settings, a disk, the standard output, and the text of
the standard error output, where traces go. Whether there are traces is a setting, so tracing needs
well-formed settings even where nothing is traced.

## Main definitions

* `ScriptBase.Host`: the host.
* `ScriptBase.Event`, `ScriptBase.Event.line`: what is traced, and its wording.
* `ScriptBase.Host.trace`: traces an event.
* `ScriptBase.Host.bufferSize`: the setting for writers.
* `ScriptBase.Host.print`: prints a line to the standard output.
-/

namespace ScriptBase

/-- What a script runs on. -/
structure Host where
  environment : Environment
  disk : Disk
  output : OutStream
  /-- What was written to the standard error output, where traces go. -/
  diagnostics : Text

/-- What files are opened for. -/
inductive Purpose where
  | reading
  | writing
  | appending
  deriving DecidableEq, Repr

/-- The wording of a purpose. -/
def Purpose.text : Purpose → Text
  | reading => "reading"
  | writing => "write"
  | appending => "append"

/-- What is traced. -/
inductive Event where
  | opened (name : Text) (purpose : Purpose)
  | readerClosed (name : Text)
  | writerClosed (name : Text)
  /-- A writer hands on bytes because it holds too many. -/
  | spilled (bytes : Nat) (name : Text)
  /-- A writer is dropped and cannot hand on its bytes. -/
  | lost (bytes : Nat) (name : Text)
  | classNamed (name : Text)
  deriving DecidableEq, Repr

namespace Event

/-- The wording of an event. Names are shown up to their first NUL byte. -/
def wording : Event → Text
  | opened name purpose => "open " ++ name.throughNul ++ " for " ++ purpose.text
  | readerClosed name => "close reader " ++ name.throughNul
  | writerClosed name => "close writer " ++ name.throughNul
  | spilled bytes name => "spill " ++ Decimal.ofNat bytes ++ " bytes to " ++ name.throughNul
  | lost bytes name =>
    "lost " ++ Decimal.ofNat bytes ++ " buffered bytes for " ++ name.throughNul
  | classNamed name => "register class " ++ name.throughNul

/-- The line of an event among the traces. -/
def line (e : Event) : Text := "[pyshim] " ++ e.wording ++ [Ascii.newline]

end Event

namespace Host

/-- The host with an environment, a disk and a standard output that takes so many bytes. -/
def start (environment : Environment) (disk : Disk) (room : Option Nat) : Host :=
  ⟨environment, disk, .toSink room false, []⟩

/-- The settings of the host. -/
def settings : Action Host Settings := do
  let host ← get
  Action.ofExcept host.environment.settings

/-- Traces an event if traces are asked for. -/
def trace (e : Event) : Action Host Unit := do
  let settings ← settings
  if settings.tracing then
    modify fun host => { host with diagnostics := host.diagnostics ++ e.line }

/-- How many bytes a writer holds back. -/
def bufferSize : Action Host Nat := do
  let settings ← settings
  pure settings.bufferSize

/-- Prints the line of a list of values to the standard output. -/
def print (vs : List Value) : Action Host Unit := do
  let host ← get
  let (output, disk) := host.output.write host.disk (printedLine vs)
  set { host with output, disk }
  if !output.good then throw .outputFailed

/-! ### Outcomes -/

/-- Tracing needs well-formed settings, and changes nothing but the diagnostics. -/
theorem outcome_trace (e : Event) (host : Host) :
    (trace e).outcome host =
      match host.environment.settings with
      | .error fault => (.error fault, host)
      | .ok settings =>
        (.ok (), if settings.tracing then { host with diagnostics := host.diagnostics ++ e.line }
          else host) := by
  simp only [trace, settings, Action.outcome_bind, Action.outcome_get, Action.outcome_ofExcept]
  cases host.environment.settings with
  | error fault => rfl
  | ok settings => by_cases h : settings.tracing <;> simp [h]

/-- A trace returns exactly if the settings are well-formed, whether they ask for traces or not. -/
theorem fst_outcome_trace (e : Event) (host : Host) :
    ((trace e).outcome host).1 = host.environment.settings.map fun _ => () := by
  rw [outcome_trace]
  cases host.environment.settings <;> rfl

/-- What tracing changes is the diagnostics at most. -/
theorem exists_diagnostics_trace (e : Event) (host : Host) :
    ∃ s, ((trace e).outcome host).2 = { host with diagnostics := s } := by
  rw [outcome_trace]
  cases host.environment.settings with
  | error fault => exact ⟨_, rfl⟩
  | ok settings =>
    cases ht : settings.tracing with
    | false => exact ⟨host.diagnostics, by simp [ht]⟩
    | true => exact ⟨_, by simp [ht]; rfl⟩

@[simp] theorem disk_trace (e : Event) (host : Host) :
    ((trace e).outcome host).2.disk = host.disk := by
  obtain ⟨s, hs⟩ := exists_diagnostics_trace e host
  rw [hs]

@[simp] theorem environment_trace (e : Event) (host : Host) :
    ((trace e).outcome host).2.environment = host.environment := by
  obtain ⟨s, hs⟩ := exists_diagnostics_trace e host
  rw [hs]

theorem outcome_bufferSize (host : Host) :
    bufferSize.outcome host = (host.environment.settings.map Settings.bufferSize, host) := by
  simp only [bufferSize, settings, Action.outcome_bind, Action.outcome_get,
    Action.outcome_ofExcept]
  cases host.environment.settings <;> rfl

/-- What the standard output takes of a line stays written if it does not take all of it. -/
theorem outcome_print (vs : List Value) (host : Host) :
    (print vs).outcome host =
      let (output, disk) := host.output.write host.disk (printedLine vs)
      (if output.good then .ok () else .error .outputFailed, { host with output, disk }) := by
  simp only [print, Action.outcome_bind, Action.outcome_get, Action.outcome_set]
  cases hg : (host.output.write host.disk (printedLine vs)).1.good <;> simp

end Host

end ScriptBase

import ScriptBase.Fault

/-!
# Settings

Two variables of the environment set how files work: whether file operations are traced, and how
many bytes a writer holds back. A variable that is absent or empty leaves its default.

## Main definitions

* `ScriptBase.Settings`: the settings and their defaults.
* `ScriptBase.Environment`: the variables as they are found.
* `ScriptBase.Environment.settings`: the settings of an environment, or what is wrong with it.
-/

namespace ScriptBase

/-- What the environment sets. -/
structure Settings where
  /-- Whether file operations are traced. -/
  tracing : Bool
  /-- How many bytes a writer holds back before it hands them on; zero for no limit. -/
  bufferSize : Nat
  deriving DecidableEq, Repr

/-- No traces, and a buffer of 8192 bytes. -/
def Settings.default : Settings := ⟨false, 8192⟩

/-- The two variables of the environment, absent or with a value. -/
structure Environment where
  /-- The value of `PYSHIM_RT_DEBUG`. -/
  debug : Option Text
  /-- The value of `PYSHIM_IO_BUFFER_SIZE`. -/
  bufferSize : Option Text
  deriving DecidableEq, Repr

namespace Environment

/-- The value of a variable up to its first NUL byte, if any is left. -/
def given? (found : Option Text) : Option Text :=
  match found with
  | none => none
  | some value => if value.throughNul.isEmpty then none else some value.throughNul

/-- Whether traces are asked for: by any value but `0`. -/
def tracing (e : Environment) : Bool :=
  match given? e.debug with
  | none => Settings.default.tracing
  | some value => value != "0"

/-- The buffer size that is asked for: an integer literal that is not negative. -/
def writeBuffer (e : Environment) : Except Fault Nat :=
  match given? e.bufferSize with
  | none => .ok Settings.default.bufferSize
  | some value =>
    match parseInteger value with
    | .error fault => .error (.bufferSize (.malformed fault) value)
    | .ok size => if size < 0 then .error (.bufferSize .negative value) else .ok size.toInt.toNat

/-- The settings of an environment. -/
def settings (e : Environment) : Except Fault Settings :=
  e.writeBuffer.map fun size => ⟨e.tracing, size⟩

/-- An environment without variables has the default settings. -/
@[simp] theorem settings_absent : settings ⟨none, none⟩ = .ok Settings.default := rfl

/-- Whether the settings are well-formed does not hang on the debug variable. -/
theorem settings_eq_ok_iff {e : Environment} {s : Settings} :
    e.settings = .ok s ↔ e.writeBuffer = .ok s.bufferSize ∧ s.tracing = e.tracing := by
  cases s
  unfold settings
  cases e.writeBuffer <;> simp [Except.map, and_comm, eq_comm]

/-- Malformed settings are a fault of the configuration. -/
theorem kind_of_settings {e : Environment} {fault : Fault}
    (h : e.settings = .error fault) : fault.kind = .configuration := by
  rw [settings, writeBuffer] at h
  split at h
  · cases h
  · split at h
    · cases h
      rfl
    · split at h
      · cases h
        rfl
      · cases h

end Environment

end ScriptBase

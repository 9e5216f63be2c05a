import ScriptBase.Action
import ScriptBase.Stream.Input
import ScriptBase.Stream.Output

/-!
# Asking for a line

A question is a prompt that is written to an output stream and flushed, and a line that is then read
from an input stream.

## Main definitions

* `ScriptBase.Dialogue`: the two streams.
* `ScriptBase.Dialogue.ask`: asks for a line.
* `ScriptBase.Dialogue.askAll`: asks for one line after another.
-/

namespace ScriptBase

/-- The streams of questions and answers. -/
structure Dialogue where
  input : InStream
  output : OutStream
  disk : Disk

namespace Dialogue

/-- The streams after a prompt was written and flushed. -/
def prompted (prompt : Text) (s : Dialogue) : Dialogue :=
  let (output, disk) := s.output.write s.disk prompt
  let (output, disk) := output.flush disk
  { s with output, disk }

/-- Writes a prompt, flushes it, and reads a line, without its newline and the carriage return
before that. The end of the input is a fault. -/
def ask (prompt : Text) : Action Dialogue Text := do
  modify (prompted prompt)
  let s ← get
  let (line, input) := s.input.getLine s.disk
  set { s with input }
  match line with
  | some line => pure line.dropReturn
  | none => if input.failed then throw .inputFailed else throw .endOfInput

/-- The answers to one prompt after another, and the streams after them. -/
def askAll (prompts : List Text) (s : Dialogue) : List (Except Fault Text) × Dialogue :=
  Action.each ask prompts s

/-- An answer is the line that the input gives, and where it gives none, a failure of the input and
its end are told apart. -/
theorem outcome_ask (prompt : Text) (s : Dialogue) :
    (ask prompt).outcome s =
      (match (s.input.getLine (s.prompted prompt).disk).1 with
        | some line => .ok line.dropReturn
        | none =>
          .error (if (s.input.getLine (s.prompted prompt).disk).2.failed then .inputFailed
            else .endOfInput),
        { s.prompted prompt with input := (s.input.getLine (s.prompted prompt).disk).2 }) := by
  simp only [ask, Action.outcome_bind, Action.outcome_modify, Action.outcome_get,
    Action.outcome_set]
  have hi : (s.prompted prompt).input = s.input := rfl
  rw [hi]
  rcases s.input.getLine (s.prompted prompt).disk with ⟨_ | line, input⟩
  · cases input.failed <;> rfl
  · rfl

end Dialogue

end ScriptBase

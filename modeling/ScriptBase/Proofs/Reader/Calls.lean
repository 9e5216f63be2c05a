import ScriptBase.Console
import ScriptBase.File.Reader

/-!
# Calls on an input stream

A script reads from an input stream through readers that are open on it, and by asking questions.
This module puts these calls into one type, so that they can be mixed in a row of calls on one
stream.

## Main definitions

* `ScriptBase.InputCall`, `ScriptBase.InputAnswer`: the calls, and what they return.
* `ScriptBase.InputCall.action`: what a call does.
* `ScriptBase.InputCall.after`: the streams after a row of calls.
-/

namespace ScriptBase

/-- Runs a reading action on the input of a dialogue. -/
def Dialogue.onInput {α : Type} (action : Disk → Action InStream α) : Action Dialogue α := do
  let s ← get
  Action.on Dialogue.input (fun input s => { s with input }) (action s.disk)

@[simp] theorem Dialogue.outcome_onInput {α : Type} (action : Disk → Action InStream α)
    (s : Dialogue) :
    (onInput action).outcome s =
      (((action s.disk).outcome s.input).1,
        { s with input := ((action s.disk).outcome s.input).2 }) :=
  rfl

/-- What can be asked of an input stream, through an open reader with a name or by a question. -/
inductive InputCall where
  | readLine (name : Text)
  /-- Goes through the lines and stops after so many. -/
  | takeLines (name : Text) (n : Nat)
  | readLines (name : Text)
  | readAll (name : Text)
  | ask (prompt : Text)

/-- What is returned by a call on an input stream. -/
inductive InputAnswer where
  | line (line : Option Text)
  | lines (lines : List Text)
  | text (s : Text)
  deriving DecidableEq

namespace InputCall

/-- A call as an action. -/
def action : InputCall → Action Dialogue InputAnswer
  | readLine name => .line <$> Dialogue.onInput (Reader.opened name).readLine
  | takeLines name n => .lines <$> Dialogue.onInput fun d => (Reader.opened name).takeLines d n
  | readLines name => .lines <$> Dialogue.onInput (Reader.opened name).readLines
  | readAll name => .text <$> Dialogue.onInput (Reader.opened name).readAll
  | ask prompt => .text <$> Dialogue.ask prompt

/-- The streams after a row of calls, whatever they have raised. -/
def after (calls : List InputCall) (s : Dialogue) : Dialogue := (Action.each action calls s).2

end InputCall

end ScriptBase

import ScriptBase.ClassName.Basic

/-!
# Naming classes

A script names classes and asks for names, step by step.

## Main definitions

* `ScriptBase.NamingStep`, `ScriptBase.NamingAnswer`: what can be asked, and what is answered.
* `ScriptBase.Naming`: the names of classes on a host.
* `ScriptBase.Naming.perform`, `ScriptBase.Naming.performAll`: running steps.
-/

namespace ScriptBase

/-- What can be asked of the names of classes. -/
inductive NamingStep where
  | assign (c : Class) (name : Text)
  | name (c : Class)
  | isNamed (c : Class)
  /-- Whether two classes are the same, whatever their names. -/
  | same (c d : Class)
  /-- Whether what is of one class is an instance of another. -/
  | isInstance (c d : Class)
  deriving DecidableEq, Repr

/-- What is answered. -/
inductive NamingAnswer where
  | done
  | name (s : Text)
  | flag (b : Bool)
  deriving DecidableEq, Repr

/-- The names of classes on a host. -/
structure Naming where
  names : ClassNames
  host : Host

namespace Naming

/-- The names at the start of a script. -/
def start (host : Host) : Naming := ⟨.initial, host⟩

/-- Runs a step. -/
def perform : NamingStep → Action Naming NamingAnswer
  | .assign c name => do
    Action.on (fun s => (s.names, s.host)) (fun state _ => ⟨state.1, state.2⟩)
      (ClassNames.assign c name)
    pure .done
  | .name c => do
    let s ← get
    let name ← Action.ofExcept (s.names.name c)
    pure (.name name)
  | .isNamed c => do
    let s ← get
    pure (.flag (s.names.isNamed c))
  | .same c d => pure (.flag (c == d))
  | .isInstance c d => pure (.flag (c.isA d))

/-- The outcomes of steps one after another, and the names after them. -/
def performAll (steps : List NamingStep) (s : Naming) :
    List (Except Fault NamingAnswer) × Naming :=
  Action.each perform steps s

end Naming

end ScriptBase

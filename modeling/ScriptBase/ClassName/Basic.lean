import ScriptBase.File.Basic

/-!
# Class names

Classes have names that a script can ask for. The builtin classes have names from the start, some of
them the same one, and a script can name its own classes and rename any. Names belong to single
classes: naming a class says nothing about the classes that derive from it.

## Main definitions

* `ScriptBase.Class`, `ScriptBase.Class.isA`: classes, and whether one is or derives from another.
* `ScriptBase.ClassNames`, `ScriptBase.ClassNames.initial`: the names of classes.
* `ScriptBase.ClassNames.name`, `ScriptBase.ClassNames.isNamed`: asking for names.
* `ScriptBase.ClassNames.assign`: naming a class.
-/

namespace ScriptBase

/-- The builtin classes. -/
inductive BuiltinClass where
  | wideInteger
  | integer
  | wideReal
  | real
  | truth
  | text
  | byte
  | char
  | file
  | reader
  | writer
  deriving DecidableEq, Repr

/-- Classes: builtin ones, and those of a script, each with the class that it derives from if it
derives from one. -/
inductive Class where
  | builtin (b : BuiltinClass)
  | own (id : Text)
  | derived (id : Text) (base : Class)
  deriving DecidableEq, Repr

namespace Class

/-- Whether a class is another or derives from it. -/
def isA : Class → Class → Bool
  | derived id base, c => derived id base == c || base.isA c
  | builtin .reader, c => c == builtin .reader || c == builtin .file
  | builtin .writer, c => c == builtin .writer || c == builtin .file
  | b, c => b == c

/-- The class of a file. -/
def ofFile : File → Class
  | .reader _ _ => builtin .reader
  | .writer _ _ => builtin .writer

theorem isA_refl (c : Class) : c.isA c = true := by
  unfold isA
  split <;> simp

end Class

/-- The names that classes have. -/
abbrev ClassNames := Dict Class Text

namespace ClassNames

/-- The names that the builtin classes have from the start. -/
def initial : ClassNames :=
  Dict.ofLast
    [(.builtin .wideInteger, "int"), (.builtin .integer, "int"), (.builtin .wideReal, "float"),
      (.builtin .real, "float"), (.builtin .truth, "bool"), (.builtin .text, "str"),
      (.builtin .byte, "str"), (.builtin .char, "str"), (.builtin .file, "file"),
      (.builtin .reader, "file"), (.builtin .writer, "file")]

/-- Whether a class has a name. -/
def isNamed (names : ClassNames) (c : Class) : Bool := names.contains c

/-- The name of a class, which has to have one. -/
def name (names : ClassNames) (c : Class) : Except Fault Text :=
  match names.get? c with
  | some name => .ok name
  | none => .error .unnamedClass

/-- Names a class. That is traced before the name is kept. -/
def assign (c : Class) (name : Text) : Action (ClassNames × Host) Unit := do
  Action.on Prod.snd (fun host state => (state.1, host)) (Host.trace (.classNamed name))
  modify fun state => (state.1.insert c name, state.2)

end ClassNames

end ScriptBase

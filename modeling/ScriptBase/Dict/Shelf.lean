import ScriptBase.Action
import ScriptBase.Value.Render

/-!
# Dictionaries under names

A shelf keeps dictionaries of atoms under names, and steps make, copy, change and ask them. A
dictionary that is made or copied to a name in use takes the place of the one before. A copy shares
nothing with what it was made from.

## Main definitions

* `ScriptBase.Shelf`: shelves.
* `ScriptBase.ShelfStep`, `ScriptBase.ShelfAnswer`: what can be asked of a shelf, and what it
  answers.
* `ScriptBase.Shelf.perform`, `ScriptBase.Shelf.performAll`: running steps.
-/

namespace ScriptBase

/-- Dictionaries under names. -/
abbrev Shelf := Dict Text (Dict Atom Atom)

/-- What can be asked of a shelf. The first name is that of the dictionary. -/
inductive ShelfStep where
  /-- Makes a dictionary; of entries with one key the first counts. -/
  | make (name : Text) (entries : Entries Atom Atom)
  | copy (name target : Text)
  | get (name : Text) (key fallback : Atom)
  /-- Asks for the value of a key that has to have one. -/
  | lookup (name : Text) (key : Atom)
  | assign (name : Text) (key value : Atom)
  /-- Asks for the value of a key, which gets an initial value if it has none. -/
  | touch (name : Text) (key initial : Atom)
  | contains (name : Text) (key : Atom)
  /-- Assigns all entries of another dictionary. -/
  | update (name source : Text)
  | size (name : Text)
  | isEmpty (name : Text)
  | isTrue (name : Text)
  | same (name other : Text)
  /-- Asks for the entries in the order of their keys. -/
  | entries (name : Text)
  /-- Asks for the text of a dictionary. -/
  | shown (name : Text)
  deriving DecidableEq, Repr

/-- What a shelf answers. -/
inductive ShelfAnswer where
  | done
  | value (a : Atom)
  | flag (b : Bool)
  | count (n : Nat)
  | entries (es : Entries Atom Atom)
  | text (s : Text)
  deriving DecidableEq, Repr

/-- A dictionary of atoms as a value. -/
def Value.ofDict (d : Dict Atom Atom) : Value := dict (d.entries.map fun e => (e.1, ofAtom e.2))

namespace Shelf

/-- A shelf without dictionaries. -/
def empty : Shelf := Dict.empty

/-- The dictionary under a name. -/
def dict (name : Text) : Action Shelf (Dict Atom Atom) := do
  match (← get).get? name with
  | some d => pure d
  | none => throw .nothingNamed

/-- Keeps a dictionary under a name. -/
def keep (name : Text) (d : Dict Atom Atom) : Action Shelf Unit :=
  modify fun (shelf : Shelf) => shelf.insert name d

/-- The entries of a dictionary in the order of their keys. -/
def sortedEntries (d : Dict Atom Atom) : Entries Atom Atom :=
  d.entries.mergeSort fun e f => e.1.le f.1

/-- Runs a step. -/
def perform : ShelfStep → Action Shelf ShelfAnswer
  | .make name entries => do
    keep name (.ofFirst entries)
    pure .done
  | .copy name target => do
    let d ← dict name
    keep target d
    pure .done
  | .get name key fallback => do
    let d ← dict name
    pure (.value (d.get key fallback))
  | .lookup name key => do
    let d ← dict name
    let value ← Action.ofExcept (d.lookup key)
    pure (.value value)
  | .assign name key value => do
    let d ← dict name
    keep name (d.insert key value)
    pure .done
  | .touch name key initial => do
    let d ← dict name
    let (value, d) := d.touch key initial
    keep name d
    pure (.value value)
  | .contains name key => do
    let d ← dict name
    pure (.flag (d.contains key))
  | .update name source => do
    let d ← dict name
    let other ← dict source
    keep name (d.update other)
    pure .done
  | .size name => do
    let d ← dict name
    pure (.count d.size)
  | .isEmpty name => do
    let d ← dict name
    pure (.flag d.isEmpty)
  | .isTrue name => do
    let d ← dict name
    pure (.flag (Value.ofDict d).isTrue)
  | .same name other => do
    let d ← dict name
    let e ← dict other
    pure (.flag (d.same e))
  | .entries name => do
    let d ← dict name
    pure (.entries (sortedEntries d))
  | .shown name => do
    let d ← dict name
    pure (.text (Value.ofDict d).plain)

/-- The outcomes of steps one after another, and the shelf after them. -/
def performAll (steps : List ShelfStep) (shelf : Shelf) :
    List (Except Fault ShelfAnswer) × Shelf :=
  Action.each perform steps shelf

/-- Both texts of a dictionary are the same. -/
theorem quoted_ofDict (d : Dict Atom Atom) : (Value.ofDict d).quoted = (Value.ofDict d).plain := by
  simp [Value.ofDict, Value.quoted, Value.plain, Value.render]

end Shelf

end ScriptBase

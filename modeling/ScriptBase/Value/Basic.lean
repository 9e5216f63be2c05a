import ScriptBase.Dict.Basic
import ScriptBase.Floating.Notation
import ScriptBase.Span
import ScriptBase.Text.Category

/-!
# Values

What a script prints, formats and tests: numbers, texts, characters, optional values, and the
containers of these.

## Main definitions

* `ScriptBase.Atom`: texts and integers, the keys of dictionaries.
* `ScriptBase.Value`: the values.
* `ScriptBase.Value.isTrue`: whether a value counts as true.
* `ScriptBase.Value.length`: the length of a text or container.
-/

namespace ScriptBase

/-- A text or an integer. -/
inductive Atom where
  | text (s : Text)
  | integer (n : Int64)
  deriving DecidableEq, Repr

/-- The order of atoms of one sort: texts by their bytes, integers by their values. -/
def Atom.le : Atom → Atom → Bool
  | text s, text t => s ≤ t
  | integer m, integer n => m ≤ n
  | integer _, text _ => true
  | text _, integer _ => false

/-- The values of a script. -/
inductive Value where
  /-- A 64-bit integer. -/
  | integer (n : Int64)
  /-- A 64-bit integer without a sign. -/
  | natural (n : UInt64)
  | truth (b : Bool)
  | real (x : Binary64)
  | text (s : Text)
  /-- A character of one byte. -/
  | byte (b : UInt8)
  /-- A character by its number, which need not be that of a scalar value. -/
  | char (n : UInt32)
  /-- The optional value that is absent. -/
  | none
  /-- An optional value that is present. -/
  | some (v : Value)
  | pair (v w : Value)
  | list (vs : List Value)
  /-- A dictionary by its entries. -/
  | dict (entries : List (Atom × Value))
  | span (s : Span)

namespace Value

/-- The value of an atom. -/
def ofAtom : Atom → Value
  | .text s => text s
  | .integer n => integer n

/-- The value of a number of 32 bits is that of the same number of 64 bits. -/
def ofBinary32 (x : Binary32) : Value := real (x.convert binary64)

/-- The value of a NUL-terminated text, which may be missing. -/
def ofTerminated : Option Text → Value
  | .none => none
  | .some s => text s.throughNul

/-- The value of a dictionary into which entries were assigned in order. -/
def ofAssigned (entries : List (Atom × Value)) : Value := dict (Dict.ofLast entries).entries

/-! ### Truth and length -/

/-- Whether a value counts as true: a number that is not zero, a container that is not empty, an
optional value that is present and counts as true itself. What is not a number is not zero. -/
def isTrue : Value → Bool
  | integer n => n != 0
  | natural n => n != 0
  | truth b => b
  | real x => !x.isZero
  | text s => !s.isEmpty
  | byte b => b != 0
  | char n => n != 0
  | none => false
  | some v => v.isTrue
  | pair _ _ => true
  | list vs => !vs.isEmpty
  | dict entries => !entries.isEmpty
  | span s => !s.isEmpty

/-- The length of a value: of a text its characters, of a container its elements. -/
def length [Platform] : Value → Nat
  | text s => s.charCount
  | list vs => vs.length
  | dict entries => entries.length
  | span s => s.size.toNat
  | _ => 0

end Value

end ScriptBase

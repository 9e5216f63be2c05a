import ScriptBase.Template.Basic
import ScriptBase.Value.Render

/-!
# Filling templates

The conversions of a template take the arguments in order. The letters `s` and `r` write the plain
and the quoted text of an argument, `d` and `i` its integer and `f` its number with places behind
the point. What is written is padded to the width of the conversion, counted in characters: with
spaces on the left, or on the right if the conversion says so, or else with zeros behind the sign
of a number. Where the platform cannot print a numeral, what it leaves is padded instead.

The first fault from the left is raised. A conversion that the template ends in, one without an
argument, an unknown letter and a missing number are faults of the conversion itself; arguments that
are left over are a fault of the end.

## Main definitions

* `ScriptBase.Argument`: what a conversion may ask of a value.
* `ScriptBase.Conversion.pad`, `ScriptBase.Conversion.apply`: padding, and the text of a conversion.
* `ScriptBase.Template.fill`: the text of a template with arguments.
* `ScriptBase.format`: the same from the text of the template and the values.
-/

namespace ScriptBase

/-- What a conversion may ask of a value. -/
structure Argument where
  plain : Text
  quoted : Text
  /-- The integer that the value carries. -/
  integer : Option Int64
  /-- The number that the value carries. -/
  real : Option Binary64

/-- The integer that a value carries. -/
def Value.integer? : Value → Option Int64
  | integer n => Option.some n
  | natural n => Option.some n.toInt64
  | truth b => Option.some (if b then 1 else 0)
  | real x => Option.some x.truncate
  | _ => Option.none

/-- The floating-point number that a value carries. -/
def Value.real? : Value → Option Binary64
  | integer n => Option.some (.ofInt binary64 n.toInt)
  | natural n => Option.some (.ofInt binary64 n.toNat)
  | truth b => Option.some (.ofInt binary64 (if b then 1 else 0))
  | real x => Option.some x
  | _ => Option.none

/-- What conversions may ask of a value. -/
def Argument.ofValue (v : Value) : Argument := ⟨v.plain, v.quoted, v.integer?, v.real?⟩

namespace Conversion

/-- The conversion letters. -/
inductive Letter where
  | plain
  | quoted
  | integer
  | real
  deriving DecidableEq, Repr

/-- The meaning of a letter, if it has one. -/
def letter? (b : UInt8) : Option Letter :=
  if b = 0x73 then some .plain
  else if b = 0x72 then some .quoted
  else if b = 0x64 || b = 0x69 then some .integer
  else if b = 0x66 then some .real
  else none

/-- The number of places that a conversion writes if it gives none. -/
def defaultPlaces : Nat := 6

/-- The length at which the text of a number with places is cut off. -/
def longestReal : Nat := 511

/-- The greatest number of places that a number needs to be written exactly. -/
def mostPlaces : Nat := 1074

/-- A text with a sign at its start, as the sign and the rest. -/
def splitSign : Text → Text × Text
  | [] => ([], [])
  | b :: s => if b = Ascii.minus || b = Ascii.plus then ([b], s) else ([], b :: s)

section

variable [Platform]

/-- A text padded to the width of a conversion. -/
def pad (c : Conversion) (numeric : Bool) (body : Text) : Text :=
  let fill := c.width.toNat - body.charCount
  if c.left then body ++ List.replicate fill Ascii.space
  else if c.zeros && numeric then
    (splitSign body).1 ++ List.replicate fill Ascii.zero ++ (splitSign body).2
  else List.replicate fill Ascii.space ++ body

/-- A text cut to the precision of a conversion. -/
def cut (c : Conversion) (body : Text) : Text :=
  match c.places with
  | none => body
  | some n => body.truncate n

/-- The text of a number with the places of a conversion, if it can be printed. It is cut off at its
greatest length; more places than a number has change nothing before that. -/
def realText (c : Conversion) (x : Binary64) : Text :=
  let places := c.places.getD defaultPlaces
  match Platform.unprinted? places x with
  | some s => s
  | none => (x.fixedText (min places mostPlaces)).take longestReal

/-- The text that a conversion makes of an argument. -/
def apply (c : Conversion) (arg : Argument) : Except Fault Text :=
  match letter? c.letter with
  | none => .error (.unknownConversion c.letter)
  | some .plain => .ok (c.pad false (c.cut arg.plain))
  | some .quoted => .ok (c.pad false (c.cut arg.quoted))
  | some .integer =>
    match arg.integer with
    | none => .error (.numberRequired c.letter arg.quoted)
    | some n => .ok (c.pad true (Decimal.ofInt n.toInt))
  | some .real =>
    match arg.real with
    | none => .error (.numberRequired c.letter arg.quoted)
    | some x => .ok (c.pad true (c.realText x))

end

end Conversion

namespace Template

variable [Platform]

/-- The text of a template with arguments. -/
def fill : List Piece → List Argument → Except Fault Text
  | [], [] => .ok []
  | [], _ :: _ => .error .unusedArguments
  | .literal b :: ps, args => (fill ps args).map (b :: ·)
  | .unfinished :: _, _ => .error .incompleteTemplate
  | .conversion _ :: _, [] => .error .notEnoughArguments
  | .conversion c :: ps, arg :: args =>
    match c.apply arg with
    | .error fault => .error fault
    | .ok s => (fill ps args).map (s ++ ·)

end Template

/-- The text of a template with the given values. -/
def format [Platform] (template : Text) (vs : List Value) : Except Fault Text :=
  Template.fill (Template.parse template) (vs.map Argument.ofValue)

/-- A template without text takes no arguments. -/
@[simp] theorem format_nil [Platform] : format [] [] = .ok [] := rfl

end ScriptBase

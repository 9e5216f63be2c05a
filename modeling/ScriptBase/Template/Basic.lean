import ScriptBase.Text.Ascii

/-!
# Templates

A template is a text with conversions in it. A percent sign starts a conversion: any number of flags
`-` and `0`, the digits of a width, a full stop and the digits of a precision, each of these
possibly missing, and then a letter. Two percent signs stand for one, and every other byte stands
for itself.

A template is read one byte at a time, so what stands before a place is read alike whatever comes
after it.

## Main definitions

* `ScriptBase.Conversion`: a conversion.
* `ScriptBase.Piece`: the parts of a template.
* `ScriptBase.Template.parse`: the parts of a text.
-/

namespace ScriptBase

/-- A conversion of a template. -/
structure Conversion where
  /-- Whether the result stands at the left end of its field. -/
  left : Bool
  /-- Whether a number fills its field with zeros. -/
  zeros : Bool
  /-- The least number of characters. -/
  width : UInt64
  /-- The number behind the full stop, if there is a full stop. -/
  precision : Option UInt64
  letter : UInt8
  deriving DecidableEq, Repr

/-- The precision that counts: the number behind the full stop as a 32-bit integer, unless that is
negative. -/
def Conversion.places (c : Conversion) : Option Nat :=
  match c.precision with
  | none => none
  | some n => if n.toUInt32.toInt32 < 0 then none else some n.toUInt32.toNat

/-- A part of a template. -/
inductive Piece where
  /-- A byte that stands for itself, or the second of two percent signs. -/
  | literal (b : UInt8)
  | conversion (c : Conversion)
  /-- A conversion that the template ends in. -/
  | unfinished
  deriving DecidableEq, Repr

namespace Template

/-- What of a conversion has been read. -/
inductive Stage where
  /-- The percent sign. -/
  | sign
  /-- One flag or more. -/
  | flags
  /-- One digit of the width or more. -/
  | width
  /-- The full stop. -/
  | precision
  deriving DecidableEq, Repr

/-- A conversion that is being read. Its letter is still open. -/
structure Partial where
  stage : Stage
  left : Bool
  zeros : Bool
  width : UInt64
  precision : Option UInt64
  deriving DecidableEq, Repr

/-- The conversion of which only the percent sign has been read. -/
def Partial.start : Partial := ⟨.sign, false, false, 0, none⟩

/-- The conversion that a letter completes. -/
def Partial.finish (p : Partial) (letter : UInt8) : Conversion :=
  ⟨p.left, p.zeros, p.width, p.precision, letter⟩

/-- A number with one more digit, as a 64-bit word. -/
def withDigit (n : UInt64) (digit : UInt8) : UInt64 :=
  n * 10 + UInt64.ofNat (Ascii.digitValue digit)

/-- What one more byte makes of a conversion that is being read: it goes on, or a piece is
complete. -/
inductive Advance where
  | more (p : Partial)
  | done (piece : Piece)

/-- Reads one more byte of a conversion. -/
def Partial.read (p : Partial) (b : UInt8) : Advance :=
  match p.stage with
  | .sign =>
    if b = Ascii.percent then .done (.literal b)
    else if b = Ascii.minus then .more { p with stage := .flags, left := true }
    else if b = Ascii.zero then .more { p with stage := .flags, zeros := true }
    else if Ascii.isDigit b then .more { p with stage := .width, width := withDigit 0 b }
    else if b = Ascii.dot then .more { p with stage := .precision, precision := some 0 }
    else .done (.conversion (p.finish b))
  | .flags =>
    if b = Ascii.minus then .more { p with left := true }
    else if b = Ascii.zero then .more { p with zeros := true }
    else if Ascii.isDigit b then .more { p with stage := .width, width := withDigit 0 b }
    else if b = Ascii.dot then .more { p with stage := .precision, precision := some 0 }
    else .done (.conversion (p.finish b))
  | .width =>
    if Ascii.isDigit b then .more { p with width := withDigit p.width b }
    else if b = Ascii.dot then .more { p with stage := .precision, precision := some 0 }
    else .done (.conversion (p.finish b))
  | .precision =>
    if Ascii.isDigit b then .more { p with precision := some (withDigit (p.precision.getD 0) b) }
    else .done (.conversion (p.finish b))

/-- The pieces of a text, of which a conversion may have been read in part before. -/
def pieces : Option Partial → Text → List Piece
  | none, [] => []
  | some _, [] => [.unfinished]
  | none, b :: s =>
    if b = Ascii.percent then pieces (some .start) s else .literal b :: pieces none s
  | some p, b :: s =>
    match p.read b with
    | .more p => pieces (some p) s
    | .done piece => piece :: pieces none s

/-- The pieces of a template. -/
def parse (s : Text) : List Piece := pieces none s

@[simp] theorem parse_nil : parse [] = [] := rfl

/-- Every byte but the percent sign stands for itself. -/
theorem parse_cons_of_ne_percent {b : UInt8} (h : b ≠ Ascii.percent) (s : Text) :
    parse (b :: s) = .literal b :: parse s := by
  simp [parse, pieces, h]

/-- Two percent signs stand for one. -/
theorem parse_percent_percent (s : Text) :
    parse (Ascii.percent :: Ascii.percent :: s) = .literal Ascii.percent :: parse s := by
  simp [parse, pieces, Partial.read, Partial.start]

end Template

end ScriptBase

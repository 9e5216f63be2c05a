import ScriptBase.Numeral.Decimal

/-!
# Integer literals

An integer literal is an optional sign and a run of decimal digits, with blanks around it. Its
value has to lie in the range of 64-bit integers. The digits are read by a reader that takes the
greatest admissible magnitude, so that the negative side can admit one more than the positive one.

## Main definitions

* `ScriptBase.LiteralFault`: what can be wrong with a literal, with its wording.
* `ScriptBase.Text.trimBlanks`: a text without the blanks around it.
* `ScriptBase.Text.takeSign`: whether a text starts with a minus sign, and what follows its sign.
* `ScriptBase.DigitReading`, `ScriptBase.readDigits`: the reader of a run of digits.
* `ScriptBase.DigitReading.report`: what a caller is told about a reading.
* `ScriptBase.parseInteger`: the value of a literal.
-/

namespace ScriptBase

/-- What can be wrong with an integer literal. -/
inductive LiteralFault where
  | missingDigits
  | invalidCharacter
  | overflow
  deriving DecidableEq, Repr

/-- The wording of a fault. -/
def LiteralFault.message : LiteralFault → Text
  | missingDigits => "missing digits in integer literal"
  | invalidCharacter => "invalid character in integer literal"
  | overflow => "integer overflow"

namespace Text

/-- A text without the blanks that it starts or ends with. -/
def trimBlanks (s : Text) : Text :=
  ((s.dropWhile Ascii.isBlank).reverse.dropWhile Ascii.isBlank).reverse

/-- Whether a text starts with a minus sign, and the text after its sign, if it starts with one. -/
def takeSign : Text → Bool × Text
  | [] => (false, [])
  | b :: s =>
    if b = Ascii.minus then (true, s)
    else if b = Ascii.plus then (false, s)
    else (false, b :: s)

end Text

/-! ### Runs of digits -/

/-- What reading a run of digits leaves: the value of the digits that were accepted, and what
stopped the reading before its end, if anything did. -/
structure DigitReading where
  value : UInt64
  fault : Option LiteralFault
  deriving DecidableEq, Repr

/-- What stands at a place for wordings after a reading: the wording of what stopped it, or else what
stood there before. A caller need not have such a place. -/
def DigitReading.report (reading : DigitReading) (place : Option Text) : Option Text :=
  place.map (reading.fault.map LiteralFault.message).getD

/-- Reads on after digits of the given value. A digit is accepted if the value before it is at most
a tenth of what `limit` leaves beside the digit. -/
def readDigitsFrom (limit value : UInt64) : Text → DigitReading
  | [] => ⟨value, none⟩
  | b :: s =>
    if !Ascii.isDigit b then ⟨value, some .invalidCharacter⟩
    else
      let digit := UInt64.ofNat (Ascii.digitValue b)
      if value > (limit - digit) / 10 then ⟨value, some .overflow⟩
      else readDigitsFrom limit (value * 10 + digit) s

/-- Reads a run of one or more digits whose value is at most `limit`. A limit below nine admits too
much: where a digit exceeds it, the difference of the two wraps around. -/
def readDigits (limit : UInt64) (s : Text) : DigitReading :=
  if s.isEmpty then ⟨0, some .missingDigits⟩ else readDigitsFrom limit 0 s

/-! ### Literals -/

/-- The greatest magnitude of a 64-bit integer of the given sign. -/
def magnitudeLimit (negative : Bool) : UInt64 :=
  if negative then 9223372036854775808 else 9223372036854775807

/-- The value of an integer literal. -/
def parseInteger (s : Text) : Except LiteralFault Int64 :=
  let (negative, digits) := s.trimBlanks.takeSign
  let reading := readDigits (magnitudeLimit negative) digits
  match reading.fault with
  | some fault => .error fault
  | none => .ok (if negative then -reading.value.toInt64 else reading.value.toInt64)

@[simp] theorem readDigits_nil (limit : UInt64) :
    readDigits limit [] = ⟨0, some .missingDigits⟩ := rfl

/-- A byte that is no digit ends the reading. -/
theorem readDigitsFrom_of_not_digit {b : UInt8} (h : Ascii.isDigit b = false) (limit value : UInt64)
    (s : Text) : readDigitsFrom limit value (b :: s) = ⟨value, some .invalidCharacter⟩ := by
  simp [readDigitsFrom, h]

end ScriptBase

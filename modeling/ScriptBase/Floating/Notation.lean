import ScriptBase.Floating.Nearest
import ScriptBase.Numeral.Decimal

/-!
# Floating-point numbers as decimal numerals

A finite number is written in one of two notations. *Fixed* notation has a given number of places
after the point. *Scientific* notation has a given number of significant digits, one of them in
front of the point, and an exponent. Both are rounded from the exact value, ties to even.

The default text of a number has the fewest significant digits for which the numeral nearest to the
number reads back as that number, and seventeen if none has fewer. It is in fixed notation if the
exponent of that numeral lies in the plain range, and scientific otherwise.

## Main definitions

* `ScriptBase.Scientific`, `ScriptBase.Ratio.toScientific`: the nearest numeral with a number of
  significant digits.
* `ScriptBase.Ratio.fixed`: the nearest numeral with a number of places.
* `ScriptBase.FloatStyle`, `ScriptBase.defaultStyle`: the choices of the default text.
* `ScriptBase.Floating.shortestDigits`: the number of significant digits of the default text.
* `ScriptBase.Floating.text`, `ScriptBase.Floating.fixedText`: the default text, and the text with
  a number of places.
-/

namespace ScriptBase

/-! ### Numerals of quotients -/

/-- The number `coefficient * 10 ^ (exponent - (digits - 1))`, where the coefficient has `digits`
digits: the exponent is that of its first digit. -/
structure Scientific where
  digits : Nat
  coefficient : Nat
  exponent : Int
  deriving DecidableEq, Repr

namespace Scientific

/-- The exact value. -/
def value (s : Scientific) : Ratio :=
  (Ratio.ofNat s.coefficient).scale .ten (s.exponent - (s.digits - 1 : Nat))

/-- A run of digits with a point behind the first `whole` of them; without a point if there are no
others. -/
def pointed (whole : Nat) (digits : Text) : Text :=
  if digits.length ≤ whole then digits
  else digits.take whole ++ Ascii.dot :: digits.drop whole

/-- The digits of a number with zeros in front, `n` digits at least. -/
def padded (n value : Nat) : Text :=
  let digits := Decimal.ofNat value
  List.replicate (n - digits.length) Ascii.zero ++ digits

/-- The numeral: the coefficient with a point behind its first digit, the letter `e`, the sign of
the exponent and the exponent in no fewer digits than given. -/
def text (exponentDigits : Nat) (s : Scientific) : Text :=
  pointed 1 (padded s.digits s.coefficient) ++ (("e" : Text) ++
    ((if s.exponent < 0 then Ascii.minus else Ascii.plus) ::
      padded exponentDigits s.exponent.natAbs))

end Scientific

namespace Ratio

/-- The exponent of the first decimal digit of a quotient that is not zero. -/
def decimalExponent (r : Ratio) : Int :=
  if r.den ≤ r.num then (Decimal.digitCount (r.num / r.den) : Int) - 1
  else -(Decimal.digitCount ((r.den - 1) / r.num) : Int)

/-- The numeral with `digits` significant digits that is nearest to a quotient. A coefficient that
is rounded up to the next power of ten takes the next exponent. -/
def toScientific (digits : Nat) (r : Ratio) : Scientific :=
  if r.num = 0 then ⟨digits, 0, 0⟩
  else
    let exponent := r.decimalExponent
    let coefficient := (r.scale .ten ((digits - 1 : Nat) - exponent)).round
    if coefficient < Nat.pow 10 digits then ⟨digits, coefficient, exponent⟩
    else ⟨digits, Nat.pow 10 (digits - 1), exponent + 1⟩

/-- The numeral with `places` digits behind the point that is nearest to a quotient; it has no point
if there are no places. -/
def fixed (places : Nat) (r : Ratio) : Text :=
  let digits := Scientific.padded (places + 1) (r.scale .ten places).round
  Scientific.pointed (digits.length - places) digits

end Ratio

/-! ### The default text -/

/-- How the default text of a floating-point number is written. -/
structure FloatStyle where
  /-- The number of significant digits at which no reading back is asked for. -/
  mostDigits : Nat
  /-- The least exponent that is written in fixed notation. -/
  leastPlain : Int
  /-- The least exponent above those written in fixed notation. -/
  firstScientific : Int
  /-- The least number of digits of a written exponent. -/
  exponentDigits : Nat

/-- Seventeen digits always read back; fixed notation reaches from `0.0001` to below `1e16`, and an
exponent has two digits or more. -/
def defaultStyle : FloatStyle := ⟨17, -4, 16, 2⟩

namespace Floating

variable {f : FloatFormat}

/-- The sign in front of the numeral of a number. -/
def signText (x : Floating f) : Text := if x.isNegative then [Ascii.minus] else []

/-- Whether a numeral, with the sign of a number, reads back as that number. -/
def readsBack (x : Floating f) (s : Scientific) : Bool := nearest f x.isNegative s.value == x

/-- The fewest significant digits from `digits` on, among the next `fuel` numbers, for which the
nearest numeral reads back; if none of these does, the number after them. -/
def fewestDigits (x : Floating f) : Nat → Nat → Nat
  | digits, 0 => digits
  | digits, fuel + 1 =>
    if x.readsBack (x.magnitude.toScientific digits) then digits
    else x.fewestDigits (digits + 1) fuel

/-- The number of significant digits that the default text of a finite number is chosen by. -/
def shortestDigits (style : FloatStyle) (x : Floating f) : Nat :=
  x.fewestDigits 1 (style.mostDigits - 1)

/-- The default text of a finite number without its sign. -/
def magnitudeText (style : FloatStyle) (x : Floating f) : Text :=
  let digits := x.shortestDigits style
  let numeral := x.magnitude.toScientific digits
  if numeral.exponent < style.leastPlain ∨ style.firstScientific ≤ numeral.exponent then
    numeral.text style.exponentDigits
  else
    let places := ((digits - 1 : Nat) - numeral.exponent).toNat
    x.magnitude.fixed places ++ if places = 0 then (".0" : Text) else []

/-- The default text of a number. -/
def text (x : Floating f) : Text :=
  if x.isNaN then "nan"
  else if x.isInfinite then x.signText ++ "inf"
  else x.signText ++ x.magnitudeText defaultStyle

/-- The text of a number with `places` digits behind the point. The sign of what is not a number is
written too. -/
def fixedText (places : Nat) (x : Floating f) : Text :=
  if x.isNaN then x.signText ++ "nan"
  else if x.isInfinite then x.signText ++ "inf"
  else x.signText ++ x.magnitude.fixed places

end Floating

end ScriptBase

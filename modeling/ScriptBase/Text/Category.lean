import ScriptBase.Text.Ascii
import ScriptBase.Text.Decode

/-!
# Classes of characters

The classes of characters that texts are asked about, and the properties of characters and texts
that are built from them. The number of a character is a word of 32 bits with a sign, and one that
is negative is of no class. A text has a property when each of its characters has it, so the empty
text has all of them; a malformed character has none.

## Main definitions

* `ScriptBase.Category.isAlphanumeric`, `ScriptBase.Category.isNumeralDigit`,
  `ScriptBase.Category.isSpace`: classes of numbers.
* `ScriptBase.Glyph.isSpace`: whether a character is a space.
* `ScriptBase.Text.isAlphanumeric`, `ScriptBase.Text.isDigits`: the properties of a text.
-/

namespace ScriptBase

namespace Category

/-- Whether a number is that of a letter or a decimal digit. -/
def isAlphanumeric [Platform] (n : Nat) : Bool :=
  n < 0x80000000 && (Platform.isLetter n || Platform.isDecimalDigit n)

/-- Whether a number is that of one of the digits that a numeral is written with, `0` to `9`. -/
def isNumeralDigit (n : Nat) : Bool := 0x30 ≤ n && n ≤ 0x39

/-- Whether a number is that of a space. -/
def isSpace [Platform] (n : Nat) : Bool := n < 0x80000000 && Platform.isSpace n

/-- Whether a byte on its own is an ASCII letter or digit. -/
def isAlphanumericByte [Platform] (b : UInt8) : Bool := b < 0x80 && isAlphanumeric b.toNat

end Category

namespace Glyph

/-- Whether a character is a scalar value of a class; a malformed character is of no class. -/
def satisfies (p : Nat → Bool) : Glyph → Bool
  | scalar c => p c.toNat
  | malformed _ => false

/-- Whether a character is a space. -/
def isSpace [Platform] (g : Glyph) : Bool := g.satisfies Category.isSpace

@[simp] theorem satisfies_scalar (p : Nat → Bool) (c : Char) : (scalar c).satisfies p = p c.toNat :=
  rfl

@[simp] theorem satisfies_malformed (p : Nat → Bool) (bytes : Text) :
    (malformed bytes).satisfies p = false := rfl

end Glyph

namespace Text

variable [Platform]

/-- Whether every character of a text is a letter or a decimal digit. -/
def isAlphanumeric (s : Text) : Bool := s.decode.all (Glyph.satisfies Category.isAlphanumeric)

/-- Whether every character of a text is a digit that a numeral is written with. -/
def isDigits (s : Text) : Bool := s.decode.all (Glyph.satisfies Category.isNumeralDigit)

end Text

end ScriptBase

import ScriptBase.Floating.Notation
import ScriptBase.Text.Glyph

/-!
# The platform of a script

What a script does rests on two libraries that are no part of this one. A library of characters
tells the classes of characters and reads one character at a place of a text. A library of numerals
prints a number into a buffer, and may fail if the numeral is very long.

What a script asks of these libraries is a *platform*, and what they are documented to answer makes
a platform *lawful*. Everything is defined for any platform, and where a result does not hang on the
answers it holds for any platform too.

## Main definitions

* `ScriptBase.Platform`: what is asked of the libraries.
* `ScriptBase.IsBroken`: the broken sequence that a text starts with.
* `ScriptBase.LawfulPlatform`: what the libraries are documented to answer.
-/

namespace ScriptBase

/-- What a script asks of the libraries that it is built on. -/
class Platform where
  /-- Whether a code point is a letter. -/
  isLetter : Nat → Bool
  /-- Whether a code point is a decimal digit. -/
  isDecimalDigit : Nat → Bool
  /-- Whether a code point is a space. -/
  isSpace : Nat → Bool
  /-- The character that a text starts with. The text is not empty. -/
  firstGlyph : Text → Glyph
  /-- The character that a text ends with. The text is not empty. -/
  lastGlyph : Text → Glyph
  /-- The offset behind the character that starts at an offset of a text. The length of the text is
  told as a number with a sign, and the offset is below it. -/
  nextStart : Text → Nat → Int → Nat
  /-- What the buffer holds if printing a number with so many places fails. -/
  unprinted? : Nat → Binary64 → Option Text

/-- Bytes that the encoding of some scalar value starts with. -/
def StartsScalar (bytes : Text) : Prop := ∃ c : Char, bytes <+: String.utf8EncodeChar c

/-- The *broken sequence* that a text starts with: its first byte, together with the bytes behind it
as far as the encoding of one scalar value could start with them. -/
structure IsBroken (bytes s : Text) : Prop where
  isPrefix : bytes <+: s
  ne_nil : bytes ≠ []
  starts : bytes.length = 1 ∨ StartsScalar bytes
  longest : ∀ other, other <+: s → StartsScalar other → other.length ≤ bytes.length

/-- The length up to which a numeral can be printed. -/
def longestPrintable : Nat := 4095

/-- What the libraries are documented to answer. Both readers of characters find a scalar value
exactly where its encoding stands, and the one from left to right takes a broken sequence as one
character where none stands; going on by one character goes over the bytes that are read as one. Of
the classes, the spaces among the ASCII characters are fixed, and the next line character is one. A
numeral that is not too long is printed. -/
class LawfulPlatform [Platform] : Prop where
  firstGlyph_eq_scalar_iff : ∀ (b : UInt8) (s : Text) (c : Char),
    Platform.firstGlyph (b :: s) = .scalar c ↔ String.utf8EncodeChar c <+: b :: s
  isBroken_of_firstGlyph : ∀ (b : UInt8) (s bytes : Text),
    Platform.firstGlyph (b :: s) = .malformed bytes → IsBroken bytes (b :: s)
  lastGlyph_eq_scalar_iff : ∀ (s : Text) (b : UInt8) (c : Char),
    Platform.lastGlyph (s ++ [b]) = .scalar c ↔ String.utf8EncodeChar c <:+ s ++ [b]
  nextStart_eq : ∀ (s : Text) (offset : Nat), offset < s.length →
    Platform.nextStart s offset s.length =
      offset + (Platform.firstGlyph (s.drop offset)).bytes.length
  isSpace_iff_of_lt : ∀ n < 0x80,
    Platform.isSpace n = true ↔ 9 ≤ n ∧ n ≤ 13 ∨ 28 ≤ n ∧ n ≤ 32
  isSpace_nextLine : Platform.isSpace 0x85 = true
  unprinted?_eq_none : ∀ (places : Nat) (x : Binary64),
    (x.fixedText places).length ≤ longestPrintable → Platform.unprinted? places x = none

end ScriptBase

import ScriptBase.Text.Category

/-!
# Stripping spaces

Spaces are taken off the ends of a text a whole character at a time. Where they end at the front is
found by reading from left to right, where they start at the back by reading from right to left, and
what is left is the part of the text between the two offsets, byte for byte, also where the text is
not well-formed.

## Main definitions

* `ScriptBase.Text.leadingEnd`, `ScriptBase.Text.trailingStart`: the two offsets.
* `ScriptBase.Text.stripStart`, `ScriptBase.Text.stripEnd`, `ScriptBase.Text.strip`.
-/

namespace ScriptBase.Text

/-- How many bytes some characters take. -/
def byteCount (gs : List Glyph) : Nat := (ofGlyphs gs).length

variable [Platform]

/-- The offset behind the spaces that a text starts with. -/
def leadingEnd (s : Text) : Nat := byteCount (s.decode.takeWhile Glyph.isSpace)

/-- How many bytes the spaces take that a text ends with. The text is given from its last byte on,
and its last `owed` bytes belong to a space behind the others. -/
def trailingSpaces : Nat → Text → Nat
  | _, [] => 0
  | owed + 1, _ :: front => trailingSpaces owed front + 1
  | 0, b :: front =>
    let g := Platform.lastGlyph (front.reverse ++ [b])
    if g.isSpace then trailingSpaces (g.bytes.length - 1) front + 1 else 0

/-- The offset of the spaces that a text ends with. A narrowed size that is negative is taken for an
offset past the end. -/
def trailingStart (s : Text) : Nat :=
  match narrowed s.length with
  | .ofNat n => n - trailingSpaces 0 (s.take n).reverse
  | .negSucc n => UInt64.size - (n + 1)

/-- A text without the spaces that it starts with. -/
def stripStart (s : Text) : Text := s.drop s.leadingEnd

/-- A text without the spaces that it ends with. -/
def stripEnd (s : Text) : Text := s.take s.trailingStart

/-- A text without the spaces that it starts or ends with. Of a text of spaces nothing is left. In
any other the spaces at the front end before those at the back start; the number of bytes between
them is counted by words of 64 bits. -/
def strip (s : Text) : Text :=
  if s.leadingEnd = s.length then []
  else
    (s.drop s.leadingEnd).take (UInt64.ofNat s.trailingStart - UInt64.ofNat s.leadingEnd).toNat

end ScriptBase.Text

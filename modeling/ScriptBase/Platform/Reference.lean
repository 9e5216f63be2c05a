import ScriptBase.Platform.Basic

/-!
# A platform for running scripts

A platform on which scripts can run and be tested. Its classes of characters are tables of the
scripts that are used most. A numeral is printed unless it has more bytes than a word of 32 bits
with a sign can count, and then blanks are left in the buffer.

A character is read from left to right by the number of bytes that its first byte announces. To read
from right to left, one goes back over continuation bytes, three of them at most, to a byte that a
sequence can start with. If the sequence that starts there ends where the reading began, it is the
character that was looked for.

## Main definitions

* `ScriptBase.ReferencePlatform.letters`, `ScriptBase.ReferencePlatform.decimalDigits`,
  `ScriptBase.ReferencePlatform.spaces`: the tables.
* `ScriptBase.ReferencePlatform.scalar?`, `ScriptBase.ReferencePlatform.lastScalar?`: the
  well-formed sequences at both ends of a text.
* `ScriptBase.ReferencePlatform.brokenLength`: how many bytes a broken sequence takes.
* `ScriptBase.ReferencePlatform.referencePlatform`: the platform.
-/

namespace ScriptBase.ReferencePlatform

open Text (isContinuation)

/-! ### Classes of characters -/

/-- A set of code points, as ranges with both ends included. -/
abbrev Ranges := List (Nat × Nat)

/-- Whether a code point lies in one of the ranges. -/
def Ranges.has (ranges : Ranges) (n : Nat) : Bool := ranges.any fun r => r.1 ≤ n && n ≤ r.2

/-- The letters. -/
def letters : Ranges :=
  [(0x41, 0x5a), (0x61, 0x7a), (0xaa, 0xaa), (0xb5, 0xb5), (0xba, 0xba), (0xc0, 0xd6), (0xd8, 0xf6),
    (0xf8, 0x220), (0x250, 0x293), (0x391, 0x3a1), (0x3a3, 0x3c9), (0x410, 0x44f), (0x5d0, 0x5ea),
    (0x621, 0x63a), (0x641, 0x64a), (0x905, 0x939), (0xe01, 0xe30), (0x1e00, 0x1e9b),
    (0x1ea0, 0x1ef9), (0x3005, 0x3006), (0x3041, 0x3094), (0x30a1, 0x30fa), (0x4e00, 0x9fa5),
    (0xac00, 0xd7a3), (0xff21, 0xff3a), (0xff41, 0xff5a), (0x1d400, 0x1d454), (0x20000, 0x2a6d6)]

/-- The decimal digits. -/
def decimalDigits : Ranges :=
  [(0x30, 0x39), (0x660, 0x669), (0x966, 0x96f), (0xff10, 0xff19), (0x1d7ce, 0x1d7ff)]

/-- The spaces: separators, and the control characters that separate lines, fields or records. -/
def spaces : Ranges :=
  [(0x09, 0x0d), (0x1c, 0x20), (0x85, 0x85), (0xa0, 0xa0), (0x1680, 0x1680), (0x2000, 0x200a),
    (0x2028, 0x2029), (0x202f, 0x202f), (0x205f, 0x205f), (0x3000, 0x3000)]

/-! ### Well-formed sequences -/

/-- The number of continuation bytes that a first byte announces, and the bits of the scalar value
that it holds itself. -/
def lead? (b : UInt8) : Option (Nat × Nat) :=
  if b < 0x80 then some (0, b.toNat)
  else if b < 0xc0 then none
  else if b < 0xe0 then some (1, (b - 0xc0).toNat)
  else if b < 0xf0 then some (2, (b - 0xe0).toNat)
  else if b < 0xf8 then some (3, (b - 0xf0).toNat)
  else none

/-- The number made of `v` and the six bits of each of the next `k` bytes, if all of these are
continuation bytes. -/
def continued? : Nat → Nat → Text → Option Nat
  | 0, v, _ => some v
  | _ + 1, _, [] => none
  | k + 1, v, b :: s =>
    if isContinuation b then continued? k (v * 64 + (b - 0x80).toNat) s else none

/-- The least number whose shortest encoding takes `k` continuation bytes. -/
def leastWith : Nat → Nat
  | 0 => 0
  | 1 => 0x80
  | 2 => 0x800
  | _ => 0x10000

/-- The scalar value whose encoding is the byte `b` and the first bytes of `s`, with the number of
these bytes of `s`. -/
def scalar? (b : UInt8) (s : Text) : Option (Char × Nat) :=
  match lead? b with
  | none => none
  | some (k, high) =>
    match continued? k high s with
    | none => none
    | some v => if leastWith k ≤ v ∧ v.isValidChar then some (Char.ofNat v, k) else none

/-- The scalar value whose encoding a text ends with, with the number of its continuation bytes. The
text is given from its last byte on, and without the bytes `passed` at its end, over which the
reading has gone back; it goes back over `reach` more continuation bytes at most. -/
def lastScalar? : Nat → Text → Text → Option (Char × Nat)
  | _, _, [] => none
  | reach, passed, b :: front =>
    if isContinuation b then
      match reach with
      | 0 => none
      | reach + 1 => lastScalar? reach (b :: passed) front
    else
      match scalar? b passed with
      | some (c, k) => if k = passed.length then some (c, k) else none
      | none => none

/-! ### Broken sequences -/

/-- Whether a sequence that starts with the byte `b` and the first `n` bytes of `s`, one at least,
can go on to a well-formed one. If it can, then with the least continuation bytes. -/
def canGoOn (b : UInt8) (s : Text) (n : Nat) : Bool :=
  match lead? b with
  | none => false
  | some (k, _) =>
    n < k && n ≤ s.length && (scalar? b (s.take n ++ List.replicate (k - n) 0x80)).isSome

/-- How many bytes the broken sequence takes that the byte `b` and the bytes of `s` start with. -/
def brokenLength (b : UInt8) (s : Text) : Nat :=
  if canGoOn b s 2 then 3 else if canGoOn b s 1 then 2 else 1

/-! ### The platform -/

/-- The character that a text starts with. -/
def firstGlyph : Text → Glyph
  | [] => .malformed []
  | b :: s =>
    match scalar? b s with
    | some (c, _) => .scalar c
    | none => .malformed ((b :: s).take (brokenLength b s))

/-- The character that a text ends with. -/
def lastGlyph (s : Text) : Glyph :=
  match lastScalar? 3 [] s.reverse with
  | some (c, _) => .scalar c
  | none => .malformed (s.drop (s.length - 1))

/-- What the buffer holds if printing a number with so many places fails. The numeral of a finite
number has a digit and a point in front of the places. -/
def unprinted? (places : Nat) (x : Binary64) : Option Text :=
  if x.isFinite && 0x80000000 ≤ places + 2 then some (List.replicate 511 0x20) else none

/-- The reference platform. -/
scoped instance referencePlatform : Platform where
  isLetter := letters.has
  isDecimalDigit := decimalDigits.has
  isSpace := spaces.has
  firstGlyph := firstGlyph
  lastGlyph := lastGlyph
  nextStart s offset size := offset + (firstGlyph ((s.take size.toNat).drop offset)).bytes.length
  unprinted? := unprinted?

end ScriptBase.ReferencePlatform

import ScriptBase.Platform.Basic

/-!
# The characters of a text

A text is read one character after another, each by the library of characters. That library keeps
offsets and sizes in words of 32 bits with a sign, and the size of a text is narrowed to such a word
before the text is read. So all this is about *addressable* texts, whose offsets all fit; of any
other text, a part is read.

## Main definitions

* `ScriptBase.Text.narrowed`, `ScriptBase.Text.Addressable`: sizes as words, and the texts that are
  read as they are.
* `ScriptBase.Text.glyphs`: the characters of a text.
* `ScriptBase.Text.decode`: the characters that are read.
* `ScriptBase.Text.charIndex`, `ScriptBase.Text.charCount`: how many characters start before an
  offset, and how many there are.
* `ScriptBase.Text.truncate`: the first characters of a text.
-/

namespace ScriptBase.Text

/-! ### Sizes -/

/-- A size as a word of 32 bits with a sign. -/
def narrowed (n : Nat) : Int := (Int32.ofNat n).toInt

/-- A text is *addressable* when its size is a word of 32 bits with a sign, as the library of
characters needs it. -/
def Addressable (s : Text) : Prop := s.length < 0x80000000

instance (s : Text) : Decidable s.Addressable := inferInstanceAs (Decidable (s.length < 0x80000000))

theorem narrowed_of_lt {n : Nat} (h : n < 0x80000000) : narrowed n = n := Int32.toInt_ofNat_of_lt h

theorem narrowed_length {s : Text} (h : s.Addressable) : narrowed s.length = s.length :=
  narrowed_of_lt h

theorem Addressable.of_le {s t : Text} (hs : s.Addressable) (h : t.length ≤ s.length) :
    t.Addressable :=
  Nat.lt_of_le_of_lt h hs

section

variable [Platform]

/-! ### Reading -/

/-- The characters of a text whose first `owed` bytes belong to a character before it. -/
def glyphsFrom : Nat → Text → List Glyph
  | _, [] => []
  | owed + 1, _ :: s => glyphsFrom owed s
  | 0, b :: s =>
    let g := Platform.firstGlyph (b :: s)
    g :: glyphsFrom (g.bytes.length - 1) s

/-- The characters of a text, from left to right. -/
def glyphs (s : Text) : List Glyph := glyphsFrom 0 s

/-- The characters that are read from a text, as far as its narrowed size reaches. -/
def decode (s : Text) : List Glyph := glyphs (s.take (narrowed s.length).toNat)

/-- The first `n` characters of a text. A text that has no more is left as it is; in one that is
cut, a replacement character stands for every malformed character that is kept. -/
def truncate (n : Nat) (s : Text) : Text :=
  let gs := s.decode
  if n < gs.length then encode ((gs.take n).map Glyph.toChar) else s

/-! ### Counting -/

/-- How many characters start among the next `left` bytes of a text from an offset on, if its length
is told as `size` and the next `owed` bytes belong to a character before them. -/
def startsWithin (s : Text) (size : Int) : Nat → Nat → Nat → Nat
  | _, _, 0 => 0
  | owed + 1, offset, left + 1 => startsWithin s size owed (offset + 1) left
  | 0, offset, left + 1 =>
    startsWithin s size (Platform.nextStart s offset size - (offset + 1)) (offset + 1) left + 1

/-- How many characters of a text start before the byte at `offset`; an offset past the end counts
as the end. -/
def charIndex (s : Text) (offset : Nat) : Nat :=
  startsWithin s (narrowed s.length) 0 0 (narrowed (min offset s.length)).toNat

/-- How many characters a text has. -/
def charCount (s : Text) : Nat := s.charIndex s.length

@[simp] theorem glyphs_nil : glyphs [] = [] := rfl

/-- The characters of an addressable text are all read. -/
theorem decode_eq {s : Text} (h : s.Addressable) : s.decode = s.glyphs := by
  rw [decode, narrowed_length h, Int.toNat_natCast, List.take_length]

/-- Bytes that are owed to an earlier character are passed over. -/
theorem glyphsFrom_eq_drop (owed : Nat) (s : Text) : glyphsFrom owed s = glyphs (s.drop owed) := by
  induction owed generalizing s with
  | zero => rfl
  | succ owed ih =>
    cases s with
    | nil => rfl
    | cons b s => simpa [glyphsFrom] using ih s

end

end ScriptBase.Text

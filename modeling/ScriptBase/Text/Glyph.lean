import ScriptBase.Text.Basic

/-!
# Characters

A text is read as UTF-8 from left to right. A well-formed sequence — the shortest encoding of a
Unicode scalar value — is one character. Bytes that belong to no such sequence make up *malformed*
characters. So reading never fails and loses nothing: the bytes of the characters, in order, are the
text. How it is done is in `ScriptBase.Text.Decode`; here is what a character is and how it is
written.

## Main definitions

* `ScriptBase.Glyph`: a character, a scalar value or bytes that are none.
* `ScriptBase.scalarOrReplacement`: the scalar value of a number.
* `ScriptBase.Text.encode`: the text of a list of scalar values.
* `ScriptBase.Text.appendNumber`: a text with a character behind it.
* `ScriptBase.Text.WellFormed`: texts that are the encoding of some list of scalar values.
* `ScriptBase.Text.ofGlyphs`: the text of a list of characters, each as it was read.
-/

namespace ScriptBase

/-- A character of a text: a scalar value, or bytes that belong to no well-formed sequence. -/
inductive Glyph where
  | scalar (c : Char)
  | malformed (bytes : Text)
  deriving DecidableEq, Repr

/-- The character that stands for what cannot be written. -/
def replacement : Char := '\uFFFD'

/-- The scalar value of a number, and the replacement character for a number that has none: a
negative one, a surrogate, or one above the last scalar value. -/
def scalarOrReplacement (n : Int) : Char :=
  if 0 ≤ n ∧ n.toNat.isValidChar then Char.ofNat n.toNat else replacement

namespace Glyph

/-- The bytes of a character in the text that it was read from. -/
def bytes : Glyph → Text
  | scalar c => String.utf8EncodeChar c
  | malformed bytes => bytes

/-- The scalar value of a character, the replacement character for a malformed one. -/
def toChar : Glyph → Char
  | scalar c => c
  | malformed _ => replacement

/-- The scalar value of a character, if it has one. -/
def toChar? : Glyph → Option Char
  | scalar c => some c
  | malformed _ => none

/-- The number of a character: that of its scalar value, and a negative one for a malformed
character. -/
def number : Glyph → Int
  | scalar c => c.toNat
  | malformed _ => -1

@[simp] theorem bytes_scalar (c : Char) : (scalar c).bytes = String.utf8EncodeChar c := rfl

@[simp] theorem bytes_malformed (bytes : Text) : (malformed bytes).bytes = bytes := rfl

end Glyph

namespace Text

/-- Whether a byte can stand behind the first byte of a well-formed sequence, and nowhere else in
it. -/
def isContinuation (b : UInt8) : Bool := 0x80 ≤ b && b < 0xc0

/-- The text of a list of scalar values. -/
def encode (cs : List Char) : Text := cs.flatMap String.utf8EncodeChar

/-- A text is *well-formed* when it is the encoding of some list of scalar values. -/
def WellFormed (s : Text) : Prop := ∃ cs : List Char, s = encode cs

/-- The text of a list of characters, each as it was read. -/
def ofGlyphs (gs : List Glyph) : Text := gs.flatMap Glyph.bytes

@[simp] theorem encode_nil : encode [] = [] := rfl

@[simp] theorem encode_cons (c : Char) (cs : List Char) :
    encode (c :: cs) = String.utf8EncodeChar c ++ encode cs := rfl

@[simp] theorem encode_append (cs ds : List Char) : encode (cs ++ ds) = encode cs ++ encode ds := by
  simp [encode]

theorem wellFormed_encode (cs : List Char) : WellFormed (encode cs) := ⟨cs, rfl⟩

theorem WellFormed.append {s t : Text} (hs : WellFormed s) (ht : WellFormed t) :
    WellFormed (s ++ t) := by
  obtain ⟨cs, rfl⟩ := hs
  obtain ⟨ds, rfl⟩ := ht
  exact ⟨cs ++ ds, (encode_append cs ds).symm⟩

@[simp] theorem ofGlyphs_nil : ofGlyphs [] = [] := rfl

@[simp] theorem ofGlyphs_cons (g : Glyph) (gs : List Glyph) :
    ofGlyphs (g :: gs) = g.bytes ++ ofGlyphs gs := rfl

@[simp] theorem ofGlyphs_append (gs hs : List Glyph) :
    ofGlyphs (gs ++ hs) = ofGlyphs gs ++ ofGlyphs hs := by
  simp [ofGlyphs]

end Text

end ScriptBase

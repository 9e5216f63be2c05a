import ScriptBase.Text.Decode

/-!
# Finding a text in a text

A needle is looked for byte by byte; where it is found, the answer counts characters. In a
well-formed text a well-formed needle starts only where a character starts, so the answer is the
index of that character. A needle that is a part of a character is found inside it, and then the
answer counts the characters that start before that place.

## Main definitions

* `ScriptBase.Text.offsetOf?`: the least offset at which a needle occurs.
* `ScriptBase.Text.find?`: the character index of the first occurrence.
* `ScriptBase.Text.find`: the same as an integer, `-1` where there is no occurrence.
* `ScriptBase.Text.startsWith`.
-/

namespace ScriptBase.Text

/-- The least offset at which `needle` occurs in a text. -/
def offsetOf? (needle : Text) : Text → Option Nat
  | [] => if needle.isEmpty then some 0 else none
  | b :: s =>
    if needle.isPrefixOf (b :: s) then some 0 else (offsetOf? needle s).map (· + 1)

section

variable [Platform]

/-- How many characters start before the first occurrence of `needle`, if there is one. -/
def find? (s needle : Text) : Option Nat := (offsetOf? needle s).map s.charIndex

/-- How many characters start before the first occurrence of `needle`, and `-1` if there is
none. -/
def find (s needle : Text) : Int :=
  match s.find? needle with
  | some i => i
  | none => -1

/-- The place of the first occurrence of a code point; one that is no scalar value is looked for as
the replacement character. -/
def findCode (s : Text) (n : Nat) : Int := s.find (encode [scalarOrReplacement n])

end

/-- Whether a text starts with the bytes of another. -/
def startsWith (s start : Text) : Bool := start.isPrefixOf s

/-- The empty needle occurs at the start of every text. -/
@[simp] theorem offsetOf?_nil_needle (s : Text) : offsetOf? [] s = some 0 := by
  cases s <;> simp [offsetOf?]

end ScriptBase.Text

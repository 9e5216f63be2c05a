import ScriptBase.Proofs.Platform.Reference
import ScriptBase.Proofs.Template.Precision
import ScriptBase.Proofs.Text.Boundaries

/-!
# Texts cut to a precision

An addressable text is cut to its first characters, and one that has no more of them is left as it
is. A text that is cut is written anew from its characters, so that each malformed one among those
that are kept becomes a replacement character. What is written is therefore the prefix with the
first characters, byte for byte, exactly if nothing is cut off or none of the characters that are
kept is malformed.

## Main definitions

* `ScriptBase.Text.firstChars`: the prefix of a text that holds its first characters.

## Main results

* `ScriptBase.Text.encode_map_toChar_isPrefix_iff`: which characters are written as they were read.
* `ScriptBase.Text.truncate_eq_firstChars_iff`: when a text is cut to a prefix.
* `ScriptBase.Template.format_text`: what is written of a text with a precision.
* `ScriptBase.Template.format_text_not_prefix`: texts that are not cut to their first characters.
-/

namespace ScriptBase

namespace Text

variable [Platform] {s : Text} {n : ℕ}

/-- The prefix of a text that holds its first `n` characters. -/
def firstChars (n : ℕ) (s : Text) : Text := ofGlyphs (s.glyphs.take n)

section Lawful

variable [LawfulPlatform]

theorem firstChars_isPrefix (n : ℕ) (s : Text) : s.firstChars n <+: s := by
  refine ⟨ofGlyphs (s.glyphs.drop n), ?_⟩
  rw [firstChars, ← ofGlyphs_append, List.take_append_drop, ofGlyphs_glyphs]

theorem firstChars_of_le (h : s.glyphs.length ≤ n) : s.firstChars n = s := by
  rw [firstChars, List.take_of_length_le h, ofGlyphs_glyphs]

/-- The first characters of a text, with replacements, are a prefix of it exactly if none of them is
malformed: the replacement character does not stand where a malformed one is read. -/
theorem encode_map_toChar_isPrefix_iff :
    encode ((s.glyphs.take n).map Glyph.toChar) <+: s ↔ ∀ g ∈ s.glyphs.take n, 0 ≤ g.number := by
  induction s using glyphs_induction generalizing n with
  | nil => simp
  | scalar c t ih =>
    cases n with
    | zero => simp
    | succ n =>
      rw [glyphs_encodeChar_append, List.take_succ_cons, List.map_cons, encode_cons, Glyph.toChar,
        List.prefix_append_right_inj, ih, List.forall_mem_cons]
      exact (and_iff_right (Int.natCast_nonneg c.toNat)).symm
  | malformed m t hm hg ih =>
    cases n with
    | zero => simp
    | succ n =>
      rw [glyphs_malformed_append hm.ne_nil hg, List.take_succ_cons, List.map_cons, encode_cons,
        List.forall_mem_cons]
      refine iff_of_false (fun h => ?_) fun h => absurd h.1 (by simp [Glyph.number])
      have hr : Platform.firstGlyph (m ++ t) = .scalar replacement :=
        (firstGlyph_eq_scalar_iff (List.append_ne_nil_of_left_ne_nil hm.ne_nil t)).2
          ((List.prefix_append _ _).trans h)
      rw [hg] at hr
      cases hr

theorem truncate_of_le (hs : s.Addressable) (h : s.charCount ≤ n) : s.truncate n = s := by
  rw [charCount_eq hs] at h
  rw [truncate, decode_eq hs, if_neg (by omega)]

theorem truncate_of_lt (hs : s.Addressable) (h : n < s.charCount) :
    s.truncate n = encode ((s.glyphs.take n).map Glyph.toChar) := by
  rw [charCount_eq hs] at h
  rw [truncate, decode_eq hs, if_pos h]

/-- A text is cut to its first characters, byte for byte, exactly if it has no more of them or none
of them is malformed. -/
theorem truncate_eq_firstChars_iff (hs : s.Addressable) :
    s.truncate n = s.firstChars n ↔
      s.charCount ≤ n ∨ ∀ g ∈ s.glyphs.take n, 0 ≤ g.number := by
  rcases le_or_gt s.charCount n with h | h
  · rw [truncate_of_le hs h, firstChars_of_le (by rwa [← charCount_eq hs])]
    exact iff_of_true rfl (.inl h)
  · rw [truncate_of_lt hs h, or_iff_right (not_le.2 h), ← encode_map_toChar_isPrefix_iff]
    refine ⟨fun he => he ▸ firstChars_isPrefix n s, fun hp => ?_⟩
    exact encode_map_toChar (encode_map_toChar_isPrefix_iff.1 hp)

end Lawful

/-- A text whose size is taken for a negative number is not cut. -/
theorem truncate_eq_self (hle : 2 ^ 31 ≤ s.length) (hlt : s.length < 2 ^ 32) :
    s.truncate n = s := by
  rw [truncate, decode_eq_nil hle hlt]
  exact if_neg (Nat.not_lt_zero n)

end Text

namespace Template

open Ascii (isDigit)
open Value (textAs)

variable {digits : Text}

/-- The letter for the quoted or the plain text of a value. -/
def textLetter (quoting : Bool) : UInt8 := if quoting then 0x72 else 0x73

theorem format_precise_text [Platform] (hd : ∀ b ∈ digits, isDigit b = true) (s : Text)
    (quoting : Bool) :
    format (precise digits (textLetter quoting)) [.text s] =
      .ok ((preciseConversion digits (textLetter quoting)).cut (textAs quoting s)) := by
  have hp : (Argument.ofValue (.text s)).plain = textAs false s := Value.plain_text s
  have hq : (Argument.ofValue (.text s)).quoted = textAs true s := Value.quoted_text s
  cases quoting
  · rw [format_precise hd rfl, Conversion.apply, ← hp]
    change Except.ok (Conversion.pad _ false _) = _
    rw [pad_preciseConversion]
  · rw [format_precise hd rfl, Conversion.apply, ← hq]
    change Except.ok (Conversion.pad _ false _) = _
    rw [pad_preciseConversion]

/-- A text, plain or quoted, is cut to as many characters as the precision says that counts, and is
written as it is if no precision counts. If it is addressable and has no more characters, it is
written as it is. If it is addressable and has more, the prefix with the first ones is written, byte
for byte, exactly if none of them is malformed, and otherwise there is a replacement character for
each that is. -/
theorem format_text [Platform] [LawfulPlatform] (hd : ∀ b ∈ digits, isDigit b = true) (s : Text)
    (quoting : Bool) :
    ∃ out, format (precise digits (textLetter quoting)) [.text s] = .ok out ∧
      (narrowed (Decimal.value digits) = none → out = textAs quoting s) ∧
      ∀ n, narrowed (Decimal.value digits) = some n → (textAs quoting s).Addressable →
        ((textAs quoting s).charCount ≤ n → out = textAs quoting s) ∧
        (out = (textAs quoting s).firstChars n ↔
          (textAs quoting s).charCount ≤ n ∨
            ∀ g ∈ (textAs quoting s).glyphs.take n, 0 ≤ g.number) ∧
        (n < (textAs quoting s).charCount →
          out.glyphs = ((textAs quoting s).glyphs.take n).map fun g => .scalar g.toChar) := by
  generalize ht : textAs quoting s = t
  refine ⟨_, format_precise_text hd s quoting, fun hn => ?_, fun n hn ha => ?_⟩
  · rw [Conversion.cut, places_preciseConversion, hn, ht]
  · rw [Conversion.cut, places_preciseConversion, hn, ht]
    refine ⟨Text.truncate_of_le ha, Text.truncate_eq_firstChars_iff ha, fun h => ?_⟩
    dsimp only
    rw [Text.truncate_of_lt ha h, Text.glyphs_encode, List.map_map]
    rfl

open scoped ScriptBase.ReferencePlatform

/-- Two characters of a quoted text are its mark and the first character. -/
theorem format_text_two :
    ∃ out, format "%.2r" [.text "abc"] = .ok out ∧ out = (Text.quoted "abc").firstChars 2 := by
  obtain ⟨out, ho, -, h⟩ :=
    format_text (List.all_eq_true.1 (by decide) : ∀ b ∈ ("2" : Text), isDigit b = true) "abc" true
  exact ⟨out, ho, (h 2 (narrowed_of_lt (by decide)) (by decide)).2.1.2 (.inr (by decide +kernel))⟩

/-- A sequence that is broken off is one of the two characters, and nothing is cut off. -/
example : format "%.2s" [.text [0xe2, 0x82, 0x61]] = .ok [0xe2, 0x82, 0x61] := by
  decide +kernel

/-- Neither are well-formed texts cut to the number of characters that is written, nor is what they
are cut to a prefix of a text with malformed characters. -/
theorem format_text_not_prefix :
    (¬ ∀ digits : Text, digits ≠ [] → (∀ b ∈ digits, isDigit b = true) →
      ∀ s : Text, s.WellFormed →
        format (precise digits (textLetter false)) [.text s] =
          .ok (s.firstChars (Decimal.value digits))) ∧
      ¬ ∀ digits : Text, digits ≠ [] → (∀ b ∈ digits, isDigit b = true) →
        Decimal.value digits < 2 ^ 31 → ∀ s : Text,
          format (precise digits (textLetter false)) [.text s] =
            .ok (s.firstChars (Decimal.value digits)) := by
  constructor
  · intro h
    have hf := h "4294967297" (by decide) (List.all_eq_true.1 (by decide)) "abc"
      ⟨['a', 'b', 'c'], by decide⟩
    exact absurd hf (by decide +kernel)
  · intro h
    have hf := h "1" (by decide) (List.all_eq_true.1 (by decide)) (by decide) [0xff, 0x61]
    exact absurd hf (by decide +kernel)

end Template

end ScriptBase

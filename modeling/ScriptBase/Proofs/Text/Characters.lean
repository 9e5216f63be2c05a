import Mathlib.Data.List.TakeWhile
import ScriptBase.Proofs.Text.Boundaries
import ScriptBase.Text.Category

/-!
# Characters and bytes

An ASCII byte is a character of its own wherever it stands, and a character that is a numeral digit
is read from such a byte only. So an addressable text consists of digits by its characters exactly
if it does by its bytes.

## Main results

* `ScriptBase.Text.glyphs_cons_of_lt`: an ASCII byte is a character.
* `ScriptBase.Text.satisfies_of_mem_glyphs`: the classes of the characters of an ASCII text.
* `ScriptBase.Text.isDigits_eq`: texts of digits.
* `ScriptBase.Text.isDigits_of_le`: texts that count as digits because they are not read.
-/

namespace ScriptBase

theorem Ascii.lt_of_isDigit {b : UInt8} (h : isDigit b = true) : b < 0x80 := by
  simp only [isDigit, Bool.and_eq_true, decide_eq_true_eq] at h
  exact UInt8.lt_of_le_of_lt h.2 (by decide)

/-- A character that is a numeral digit is written as one digit. -/
theorem Glyph.exists_bytes_of_isNumeralDigit {g : Glyph}
    (h : g.satisfies Category.isNumeralDigit = true) :
    ∃ b, g.bytes = [b] ∧ Ascii.isDigit b = true := by
  cases g with
  | malformed bytes => cases h
  | scalar c =>
    have hc : 48 ≤ c.toNat ∧ c.toNat ≤ 57 := by
      simpa [Category.isNumeralDigit] using h
    have hb : (UInt8.ofNat c.toNat).toNat = c.toNat :=
      UInt8.toNat_ofNat_of_lt' (Nat.lt_of_le_of_lt hc.2 (by decide))
    have he := Text.encodeChar_eq c
    rw [if_pos (by omega)] at he
    refine ⟨_, he, ?_⟩
    simp [Ascii.isDigit, UInt8.le_iff_toNat_le, hb, hc]

namespace Text

variable [Platform] {b : UInt8} {s : Text}

/-- A text whose size is taken for a negative number counts as digits, whatever it consists of. -/
theorem isDigits_of_le (hle : 2 ^ 31 ≤ s.length) (hlt : s.length < 2 ^ 32) : s.isDigits = true := by
  rw [isDigits, decode_eq_nil hle hlt, List.all_nil]

variable [LawfulPlatform]

/-! ### ASCII bytes -/

/-- An ASCII byte is a character of its own. -/
theorem glyphs_cons_of_lt (h : b < 0x80) (s : Text) :
    glyphs (b :: s) = .scalar (Char.ofNat b.toNat) :: glyphs s := by
  rw [← glyphs_encodeChar_append, encodeChar_of_lt h, List.singleton_append]

/-- Every byte of an ASCII text is a character of its own, whatever follows. -/
theorem glyphs_append_of_lt (h : ∀ b ∈ s, b < 0x80) (t : Text) :
    glyphs (s ++ t) = (s.map fun b => .scalar (Char.ofNat b.toNat)) ++ glyphs t := by
  induction s with
  | nil => rfl
  | cons b s ih =>
    obtain ⟨hb, hs⟩ := List.forall_mem_cons.1 h
    rw [List.cons_append, glyphs_cons_of_lt hb, ih hs, List.map_cons, List.cons_append]

/-- Of which class the characters of an ASCII text are is told by its bytes. -/
theorem satisfies_of_mem_glyphs {p : Nat → Bool} {v : Bool}
    (h : ∀ b ∈ s, b < 0x80 ∧ p b.toNat = v) : ∀ g ∈ s.glyphs, g.satisfies p = v := by
  have hd := glyphs_append_of_lt (fun b hb => (h b hb).1) []
  rw [List.append_nil, glyphs_nil, List.append_nil] at hd
  rw [hd]
  intro g hg
  obtain ⟨b, hb, rfl⟩ := List.mem_map.1 hg
  rw [Glyph.satisfies_scalar, Ascii.toNat_char (h b hb).1, (h b hb).2]

theorem length_glyphs_append_of_lt (h : ∀ b ∈ s, b < 0x80) (t : Text) :
    (glyphs (s ++ t)).length = s.length + t.glyphs.length := by
  rw [glyphs_append_of_lt h, List.length_append, List.length_map]

/-- A text of ASCII bytes has as many characters as bytes. -/
theorem length_glyphs_of_lt (h : ∀ b ∈ s, b < 0x80) : s.glyphs.length = s.length := by
  have hs := length_glyphs_append_of_lt h []
  rwa [List.append_nil, glyphs_nil, List.length_nil] at hs

/-- An ASCII byte is the only character of a text exactly if nothing stands behind it. -/
theorem one_lt_charCount_iff (h : b < 0x80) (hs : Addressable (b :: s)) :
    1 < charCount (b :: s) ↔ s ≠ [] := by
  rw [charCount_eq hs, glyphs_cons_of_lt h, List.length_cons, Nat.lt_add_left_iff_pos,
    List.length_pos_iff, ne_eq, glyphs_eq_nil_iff]

/-! ### Digits -/

/-- An addressable text consists of digits by its characters exactly if it does by its bytes. -/
theorem isDigits_eq (hs : s.Addressable) : s.isDigits = s.all Ascii.isDigit := by
  rw [Bool.eq_iff_iff, isDigits, decode_eq hs]
  constructor
  · intro h
    rw [← ofGlyphs_glyphs s, ofGlyphs, List.all_flatMap]
    refine List.all_eq_true.2 fun g hg => ?_
    obtain ⟨b, hb, hd⟩ := Glyph.exists_bytes_of_isNumeralDigit (List.all_eq_true.1 h g hg)
    simp [hb, hd]
  · intro h
    have hd := List.all_eq_true.1 h
    exact List.all_eq_true.2
      (satisfies_of_mem_glyphs fun b hb => ⟨Ascii.lt_of_isDigit (hd b hb), hd b hb⟩)

end Text

end ScriptBase

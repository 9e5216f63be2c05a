import Mathlib.Algebra.Order.Field.Power
import Mathlib.Data.Nat.Cast.Order.Field
import Mathlib.Data.Rat.Cast.Order
import Mathlib.Tactic.Linarith
import Mathlib.Tactic.Positivity
import Mathlib.Tactic.Ring
import ScriptBase.Floating.Ratio

/-!
# Quotients as rational numbers

The steps from which numerals are made are read as operations on rational numbers: scaling is
multiplication with a power of the base, and rounding goes to the nearest whole number, the even one
of two that are equally near. So what is rounded to depends on the rational number only, and not on
the quotient that stands for it.

## Main definitions

* `ScriptBase.Ratio.toRat`: the rational number of a quotient.
* `ScriptBase.RoundsToNat`: the whole number that a rational number is rounded to.

## Main results

* `ScriptBase.Ratio.toRat_scale`: scaling.
* `ScriptBase.Ratio.round_eq_iff`: rounding.
* `ScriptBase.RoundsToNat.nearest`: no whole number is nearer than the one that is rounded to.
-/

namespace ScriptBase

/-! ### Rounding to whole numbers -/

/-- A whole number is what a rational number is rounded to if it is at most one half away from it,
and even if it is as far away as that. -/
def RoundsToNat (q : ℚ) (n : ℕ) : Prop := |q - n| ≤ 1 / 2 ∧ (|q - n| = 1 / 2 → Even n)

namespace RoundsToNat

variable {q : ℚ} {m n : ℕ}

/-- Different whole numbers are one apart. -/
theorem one_le_abs_sub (h : m ≠ n) : (1 : ℚ) ≤ |(m : ℚ) - n| := by
  have hi : (1 : ℤ) ≤ |(m : ℤ) - n| := Int.one_le_abs (sub_ne_zero.2 (Nat.cast_injective.ne h))
  exact_mod_cast hi

/-- Another whole number is at least one half away. -/
theorem half_le_abs_sub (h : RoundsToNat q n) (hm : m ≠ n) : 1 / 2 ≤ |q - m| := by
  have h₁ := one_le_abs_sub hm
  have h₂ := abs_sub_le (m : ℚ) q n
  rw [abs_sub_comm (m : ℚ) q] at h₂
  linarith [h.1]

/-- No whole number is nearer. -/
theorem nearest (h : RoundsToNat q n) (m : ℕ) : |q - n| ≤ |q - m| := by
  by_cases hm : m = n
  · rw [hm]
  · exact h.1.trans (h.half_le_abs_sub hm)

/-- The number is even if another one is equally near. -/
theorem even (h : RoundsToNat q n) (hm : m ≠ n) (he : |q - m| = |q - n|) : Even n :=
  h.2 (le_antisymm h.1 (he ▸ h.half_le_abs_sub hm))

/-- A rational number is rounded to one whole number only. -/
theorem unique (hm : RoundsToNat q m) (hn : RoundsToNat q n) : m = n := by
  by_contra hne
  -- both are one half away on different sides, hence both are even and neighbours
  have h₁ : |q - m| = 1 / 2 := le_antisymm hm.1 (hn.half_le_abs_sub hne)
  have h₂ : |q - n| = 1 / 2 := le_antisymm hn.1 (hm.half_le_abs_sub (Ne.symm hne))
  have hd : |(m : ℚ) - n| ≤ 1 := by
    have h := abs_sub_le (m : ℚ) q n
    rw [abs_sub_comm (m : ℚ) q] at h
    linarith
  have hd' : |(m : ℤ) - n| ≤ 1 := by exact_mod_cast hd
  obtain ⟨a, rfl⟩ := hm.2 h₁
  obtain ⟨b, rfl⟩ := hn.2 h₂
  rw [abs_le] at hd'
  push_cast at hd'
  omega

/-- Whole numbers are rounded to themselves. -/
theorem natCast (n : ℕ) : RoundsToNat n n := by
  simp [RoundsToNat]

/-- A number that is nearer to a whole number than one half is rounded to it. -/
theorem of_abs_sub_lt (h : |q - n| < 1 / 2) : RoundsToNat q n :=
  ⟨h.le, fun he => absurd he h.ne⟩

/-- Distances in a unit. -/
theorem abs_sub_mul {g : ℚ} (hg : 0 < g) (q : ℚ) (k : ℕ) : |q - k * g| = |q / g - k| * g := by
  rw [← abs_of_pos hg, ← abs_mul, abs_of_pos hg, sub_mul, div_mul_cancel₀ _ hg.ne']

/-- No multiple of a unit is nearer to a number than what it is rounded to in this unit. -/
theorem nearest_mul {g : ℚ} (hg : 0 < g) (h : RoundsToNat (q / g) n) (m : ℕ) :
    |q - n * g| ≤ |q - m * g| := by
  rw [abs_sub_mul hg, abs_sub_mul hg]
  exact mul_le_mul_of_nonneg_right (h.nearest m) hg.le

/-- If another multiple of the unit is equally near, the multiple is an even one. -/
theorem even_mul {g : ℚ} (hg : 0 < g) (h : RoundsToNat (q / g) n) (hm : m ≠ n)
    (he : |q - m * g| = |q - n * g|) : Even n := by
  rw [abs_sub_mul hg, abs_sub_mul hg] at he
  exact h.even hm (mul_right_cancel₀ hg.ne' he)

/-- What a number is rounded to in a unit is at most half a unit away. -/
theorem abs_sub_mul_le {g : ℚ} (hg : 0 < g) (h : RoundsToNat (q / g) n) :
    2 * |q - n * g| ≤ g := by
  rw [abs_sub_mul hg]
  linarith [mul_le_mul_of_nonneg_right h.1 hg.le]

/-- A number below a whole number is not rounded past it. -/
theorem le_of_lt (h : RoundsToNat q n) (hq : q < m) : n ≤ m := by
  have h₁ := (abs_le.1 h.1).1
  have h₂ : (n : ℚ) < m + 1 := by linarith
  exact Nat.lt_succ_iff.1 (by exact_mod_cast h₂)

/-- A number from a whole number on is not rounded to before it. -/
theorem le_of_le (h : RoundsToNat q n) (hq : (m : ℚ) ≤ q) : m ≤ n := by
  have h₁ := (abs_le.1 h.1).2
  have h₂ : (m : ℚ) < n + 1 := by linarith
  exact Nat.lt_succ_iff.1 (by exact_mod_cast h₂)

end RoundsToNat

namespace Ratio

/-- The rational number that a quotient stands for. -/
def toRat (r : Ratio) : ℚ := r.num / r.den

variable {r : Ratio}

theorem den_cast_pos (r : Ratio) : (0 : ℚ) < r.den := Nat.cast_pos.2 r.den_pos

theorem toRat_nonneg (r : Ratio) : 0 ≤ r.toRat := by
  unfold toRat
  positivity

theorem toRat_eq_zero_iff : r.toRat = 0 ↔ r.num = 0 := by
  rw [toRat, div_eq_zero_iff, Nat.cast_eq_zero, or_iff_left r.den_cast_pos.ne']

@[simp] theorem toRat_ofNat (n : ℕ) : (ofNat n).toRat = n := by
  simp [toRat, ofNat]

/-- Scaling is multiplication with a power of the base. -/
theorem toRat_scale (r : Ratio) (base : Base) (k : ℤ) :
    (r.scale base k).toRat = r.toRat * (base.value : ℚ) ^ k := by
  have hb : (base.value : ℚ) ≠ 0 := Nat.cast_ne_zero.2 base.value_pos.ne'
  cases k with
  | ofNat k =>
    simp only [scale, toRat, Nat.pow_eq, Int.ofNat_eq_natCast, zpow_natCast]
    push_cast
    exact mul_div_right_comm _ _ _
  | negSucc k =>
    simp only [scale, toRat, Nat.pow_eq, zpow_negSucc]
    push_cast
    rw [← div_eq_mul_inv, div_div]

/-- The whole part of a quotient. -/
theorem floor_le (r : Ratio) : (r.floor : ℚ) ≤ r.toRat := Nat.cast_div_le

theorem lt_floor_add_one (r : Ratio) : r.toRat < r.floor + 1 := by
  have h := Nat.lt_mul_div_succ r.num r.den_pos
  rw [toRat, div_lt_iff₀ r.den_cast_pos, mul_comm, floor]
  exact_mod_cast h

theorem floor_lt_iff {n : ℕ} : r.floor < n ↔ r.toRat < n := by
  constructor
  · intro h
    have h' : (r.floor : ℚ) + 1 ≤ n := by exact_mod_cast h
    exact r.lt_floor_add_one.trans_le h'
  · intro h
    exact_mod_cast r.floor_le.trans_lt h

/-- Behind its whole part a quotient has the quotient of the rest. -/
theorem toRat_sub_floor (r : Ratio) : r.toRat - r.floor = (r.num % r.den : ℕ) / r.den := by
  have h : (r.den : ℚ) * (r.num / r.den : ℕ) + (r.num % r.den : ℕ) = r.num := by
    exact_mod_cast Nat.div_add_mod r.num r.den
  rw [toRat, floor, sub_eq_iff_eq_add, div_add' _ _ _ r.den_cast_pos.ne', add_comm,
    mul_comm, h]

/-- Rounding a quotient rounds its rational number. -/
theorem roundsToNat_round (r : Ratio) : RoundsToNat r.toRat r.round := by
  have hd := r.den_cast_pos
  have hr := r.toRat_sub_floor
  have h₀ : (0 : ℚ) ≤ (r.num % r.den : ℕ) / r.den := by positivity
  have h₁ : ((r.num % r.den : ℕ) : ℚ) / r.den < 1 := by
    rw [div_lt_one hd]
    exact_mod_cast Nat.mod_lt _ r.den_pos
  unfold floor at hr
  unfold round
  dsimp only
  split
  case isTrue h =>
    have h₂ : ((r.num % r.den : ℕ) : ℚ) / r.den < 1 / 2 := by
      rw [div_lt_div_iff₀ hd two_pos, one_mul]
      exact_mod_cast (mul_comm 2 (r.num % r.den)) ▸ h
    exact .of_abs_sub_lt (by rwa [hr, abs_of_nonneg h₀])
  case isFalse h =>
    split
    case isTrue h' =>
      have h₂ : 1 / 2 < ((r.num % r.den : ℕ) : ℚ) / r.den := by
        rw [div_lt_div_iff₀ two_pos hd, one_mul]
        exact_mod_cast (mul_comm 2 (r.num % r.den)) ▸ h'
      refine .of_abs_sub_lt ?_
      rw [Nat.cast_add_one, abs_sub_lt_iff]
      constructor <;> linarith
    case isFalse h' =>
      -- the rest is one half
      have h₂ : ((r.num % r.den : ℕ) : ℚ) / r.den = 1 / 2 := by
        rw [div_eq_div_iff hd.ne' two_ne_zero, one_mul, mul_comm]
        exact_mod_cast le_antisymm (not_lt.1 h') (not_lt.1 h)
      rw [h₂] at hr
      obtain he | ho := Nat.mod_two_eq_zero_or_one (r.num / r.den)
      · rw [he, Nat.add_zero]
        exact ⟨by rw [hr, abs_of_pos one_half_pos], fun _ => Nat.even_iff.2 he⟩
      · have hs : r.toRat - (r.num / r.den + 1 : ℕ) = -(1 / 2) := by
          push_cast
          linarith
        rw [ho]
        exact ⟨by rw [hs, abs_neg, abs_of_pos one_half_pos],
          fun _ => Nat.even_add_one.2 (Nat.not_even_iff.2 ho)⟩

/-- What a quotient is rounded to is told by its rational number. -/
theorem round_eq_iff {n : ℕ} : r.round = n ↔ RoundsToNat r.toRat n :=
  ⟨fun h => h ▸ r.roundsToNat_round, fun h => r.roundsToNat_round.unique h⟩

end Ratio

end ScriptBase

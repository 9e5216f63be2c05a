import Mathlib.Order.Monotone.Basic
import ScriptBase.Floating.Nearest
import ScriptBase.Proofs.Floating.Quotients

/-!
# Magnitudes of a floating-point format

The bits of a magnitude count the magnitudes of a format from zero on, and they could go on to do so
behind the greatest finite one. Neighbours have a gap between them, which is twice as wide from one
power of two on as it is below it. A rational number is rounded to the magnitude that is nearest to
it among all these; of two that are equally near, one has an even significand, and it is taken. So a
number is rounded to a magnitude if it is at most half of the gap away from it on either side, and
only to an even one if it is as far away as that.

## Main definitions

* `ScriptBase.FloatFormat.magnitudeAt`, `ScriptBase.FloatFormat.gapAt`: the magnitude with given
  bits, and the gap behind it.
* `ScriptBase.FloatFormat.NearestAt`: the bits of the magnitude that is nearest to a number.
* `ScriptBase.FloatFormat.Within`: the numbers around a magnitude.

## Main results

* `ScriptBase.FloatFormat.magnitudeAt_succ`: neighbours.
* `ScriptBase.FloatFormat.nearestAt_iff`: the nearest magnitude, by the gaps around it.
* `ScriptBase.FloatFormat.NearestAt.unique`: only one magnitude is the nearest.
-/

namespace ScriptBase

namespace FloatFormat

variable {f : FloatFormat} {k m n s : ℕ} {q w : ℚ}

/-! ### Magnitudes by their bits -/

/-- The significand of the magnitude with the given bits. -/
def significandAt (f : FloatFormat) (n : ℕ) : ℕ :=
  if n / f.fractions = 0 then n % f.fractions else f.fractions + n % f.fractions

/-- The exponent of the last place of the magnitude with the given bits. -/
def placeAt (f : FloatFormat) (n : ℕ) : ℤ := f.leastPlace + (n / f.fractions - 1 : ℕ)

/-- The gap between the magnitude with the given bits and the next one. -/
def gapAt (f : FloatFormat) (n : ℕ) : ℚ := 2 ^ f.placeAt n

/-- The magnitude with the given bits. The exponents go on behind those of finite numbers. -/
def magnitudeAt (f : FloatFormat) (n : ℕ) : ℚ := f.significandAt n * f.gapAt n

theorem gapAt_pos (f : FloatFormat) (n : ℕ) : 0 < f.gapAt n := zpow_pos two_pos _

theorem gapAt_le_gapAt (h : m ≤ n) : f.gapAt m ≤ f.gapAt n := by
  have hd := Nat.div_le_div_right (c := f.fractions) h
  refine zpow_le_zpow_right₀ one_le_two ?_
  unfold placeAt
  omega

/-- Bits are those of a significand at the place that they have. -/
theorem eq_mul_add_significandAt (f : FloatFormat) (n : ℕ) :
    n = (n / f.fractions - 1) * f.fractions + f.significandAt n ∧
      f.significandAt n < 2 * f.fractions ∧
      (n / f.fractions - 1 = 0 ∨ f.fractions ≤ f.significandAt n) := by
  have hd := Nat.div_add_mod n f.fractions
  have hm := Nat.mod_lt n f.fractions_pos
  unfold significandAt
  split
  case isTrue h =>
    rw [h, mul_zero, zero_add] at hd
    rw [h, hd]
    exact ⟨by simp, by omega, .inl rfl⟩
  case isFalse h =>
    refine ⟨?_, by omega, .inr (Nat.le_add_right _ _)⟩
    obtain ⟨j, hj⟩ := Nat.exists_eq_succ_of_ne_zero h
    rw [hj] at hd ⊢
    rw [Nat.succ_sub_one, ← add_assoc, ← Nat.succ_mul, mul_comm, hd]

/-- A significand at a place has its bits, also if it is that of the next place. -/
theorem magnitudeAt_mul_add (hs : s ≤ 2 * f.fractions) (hk : k = 0 ∨ f.fractions ≤ s) :
    f.magnitudeAt (k * f.fractions + s) = s * 2 ^ (f.leastPlace + k) := by
  have hF := f.fractions_pos
  rcases Nat.lt_or_ge s f.fractions with h | h
  · obtain rfl : k = 0 := by omega
    simp [magnitudeAt, significandAt, gapAt, placeAt, Nat.div_eq_of_lt h, Nat.mod_eq_of_lt h]
  rcases hs.eq_or_lt with rfl | h'
  · have hn : k * f.fractions + 2 * f.fractions = f.fractions * (k + 2) := by ring
    have hg : (2 : ℚ) ^ (f.leastPlace + (k + 1 : ℕ)) = 2 * 2 ^ (f.leastPlace + k) := by
      rw [Nat.cast_succ, ← add_assoc, zpow_add_one₀ two_ne_zero, mul_comm]
    simp only [magnitudeAt, significandAt, gapAt, placeAt, hn, Nat.mul_div_cancel_left _ hF,
      Nat.mul_mod_right, Nat.add_eq_zero_iff, OfNat.ofNat_ne_zero, and_false, if_false,
      Nat.add_zero, show k + 2 - 1 = k + 1 from rfl, hg]
    push_cast
    ring
  · have hn : k * f.fractions + s = (s - f.fractions) + f.fractions * (k + 1) := by
      rw [mul_add, mul_one, mul_comm]
      omega
    have hl : s - f.fractions < f.fractions := by omega
    simp [magnitudeAt, significandAt, gapAt, placeAt, hn, Nat.add_mul_div_left _ _ hF,
      Nat.div_eq_of_lt hl, Nat.mod_eq_of_lt hl, Nat.add_sub_cancel' h]

/-- The gap behind a significand at a place is no narrower than the unit of the place. -/
theorem zpow_le_gapAt (hk : k = 0 ∨ f.fractions ≤ s) :
    2 ^ (f.leastPlace + k) ≤ f.gapAt (k * f.fractions + s) := by
  have hF := f.fractions_pos
  have hs : k = 0 ∨ 1 ≤ s / f.fractions := hk.imp_right fun h => (Nat.one_le_div_iff hF).2 h
  refine zpow_le_zpow_right₀ one_le_two ?_
  rw [placeAt, mul_comm, Nat.mul_add_div hF]
  omega

theorem magnitudeAt_succ (f : FloatFormat) (n : ℕ) :
    f.magnitudeAt (n + 1) = f.magnitudeAt n + f.gapAt n := by
  obtain ⟨hn, hs, hk⟩ := f.eq_mul_add_significandAt n
  have h : n + 1 = (n / f.fractions - 1) * f.fractions + (f.significandAt n + 1) := by
    rw [← add_assoc, ← hn]
  rw [h, magnitudeAt_mul_add hs (hk.imp_right Nat.le_succ_of_le), magnitudeAt, gapAt, placeAt]
  push_cast
  ring

theorem strictMono_magnitudeAt (f : FloatFormat) : StrictMono f.magnitudeAt := by
  refine strictMono_nat_of_lt_succ fun n => ?_
  rw [magnitudeAt_succ]
  exact lt_add_of_pos_right _ (f.gapAt_pos n)

@[simp] theorem magnitudeAt_zero (f : FloatFormat) : f.magnitudeAt 0 = 0 := by
  simp [magnitudeAt, significandAt]

/-- Greater bits are those of a magnitude behind the gap. -/
theorem magnitudeAt_add_gapAt_le (h : n < m) : f.magnitudeAt n + f.gapAt n ≤ f.magnitudeAt m := by
  rw [← magnitudeAt_succ]
  exact f.strictMono_magnitudeAt.monotone h

/-- Smaller bits are those of a magnitude before the gap. -/
theorem magnitudeAt_le_sub_gapAt (h : m < n) :
    f.magnitudeAt m ≤ f.magnitudeAt n - f.gapAt (n - 1) := by
  obtain ⟨n, rfl⟩ : ∃ j, n = j + 1 := ⟨n - 1, by omega⟩
  rw [magnitudeAt_succ, Nat.add_sub_cancel, add_sub_cancel_right]
  exact f.strictMono_magnitudeAt.monotone (Nat.lt_succ_iff.1 h)

/-- The magnitudes at which the gap before is half as wide as the gap behind: the powers of two but
for the smallest ones. -/
def Widens (f : FloatFormat) (n : ℕ) : Prop := n % f.fractions = 0 ∧ 1 < n / f.fractions

theorem gapAt_pred_of_widens (h : f.Widens n) : 2 * f.gapAt (n - 1) = f.gapAt n := by
  have hF := f.fractions_pos
  obtain ⟨h₀, h₁⟩ := h
  obtain ⟨j, rfl⟩ := Nat.dvd_of_mod_eq_zero h₀
  rw [Nat.mul_div_cancel_left _ hF] at h₁
  have hd : (f.fractions * j - 1) / f.fractions = j - 1 := by
    obtain ⟨i, rfl⟩ : ∃ i, j = i + 1 := ⟨j - 1, by omega⟩
    rw [mul_add, mul_one, Nat.add_sub_assoc hF, Nat.mul_add_div hF,
      Nat.div_eq_of_lt (Nat.sub_lt hF Nat.one_pos), Nat.add_zero, Nat.add_sub_cancel]
  have hp : f.placeAt (f.fractions * j) = f.placeAt (f.fractions * j - 1) + 1 := by
    unfold placeAt
    rw [hd, Nat.mul_div_cancel_left _ hF]
    omega
  rw [gapAt, gapAt, hp, zpow_add_one₀ two_ne_zero, mul_comm]

theorem gapAt_pred_of_not_widens (h : ¬ f.Widens n) : f.gapAt (n - 1) = f.gapAt n := by
  have hF := f.fractions_pos
  have hd := Nat.div_add_mod n f.fractions
  have hm := Nat.mod_lt n hF
  have hp : (n - 1) / f.fractions - 1 = n / f.fractions - 1 := by
    rcases Nat.eq_zero_or_pos (n % f.fractions) with h₀ | h₀
    · -- a power of two that is too small for its gap to have changed
      have h₁ : n / f.fractions ≤ 1 := not_lt.1 fun h₁ => h ⟨h₀, h₁⟩
      have h₂ := Nat.div_le_div_right (c := f.fractions) (Nat.sub_le n 1)
      omega
    · have hn : n - 1 = f.fractions * (n / f.fractions) + (n % f.fractions - 1) := by omega
      have hl : n % f.fractions - 1 < f.fractions := by omega
      rw [hn, Nat.mul_add_div hF, Nat.div_eq_of_lt hl, Nat.add_zero]
  rw [gapAt, gapAt, placeAt, placeAt, hp]

/-- Bits have the parity of their significand if there is more than one fraction. -/
theorem even_significandAt_iff (hf : Even f.fractions) : Even (f.significandAt n) ↔ Even n := by
  conv_rhs => rw [(f.eq_mul_add_significandAt n).1]
  rw [Nat.even_add, iff_true_left (hf.mul_left _)]

/-! ### The nearest magnitude -/

/-- The bits of the magnitude that is nearest to a number, the even ones of two that are equally
near. -/
def NearestAt (f : FloatFormat) (q : ℚ) (n : ℕ) : Prop :=
  ∀ m, |q - f.magnitudeAt n| ≤ |q - f.magnitudeAt m| ∧
    (m ≠ n → |q - f.magnitudeAt m| = |q - f.magnitudeAt n| → Even n)

/-- A number is at most half the gap away from a magnitude, on either side, and only from an even
one as far as that. -/
structure Within (f : FloatFormat) (q : ℚ) (n : ℕ) : Prop where
  above : 2 * (q - f.magnitudeAt n) ≤ f.gapAt n
  even_above : 2 * (q - f.magnitudeAt n) = f.gapAt n → Even n
  below : 2 * (f.magnitudeAt n - q) ≤ f.gapAt (n - 1)
  even_below : 2 * (f.magnitudeAt n - q) = f.gapAt (n - 1) → Even n

section Distances

variable {d : ℚ}

theorem abs_le_abs_sub_iff (hw : 0 < w) : |d| ≤ |d - w| ↔ 2 * d ≤ w := by
  rw [← sq_le_sq]
  constructor
  · intro h
    nlinarith
  · intro h
    nlinarith

theorem abs_sub_eq_abs_iff (hw : 0 < w) : |d - w| = |d| ↔ 2 * d = w := by
  rw [← sq_eq_sq_iff_abs_eq_abs]
  constructor
  · intro h
    have h' : w * (2 * d - w) = 0 := by linarith
    exact sub_eq_zero.1 ((mul_eq_zero.1 h').resolve_left hw.ne')
  · rintro rfl
    ring

end Distances

theorem NearestAt.within (h : f.NearestAt q n) (hq : 0 ≤ q) : f.Within q n := by
  have hg := f.gapAt_pos n
  obtain ⟨hn, he⟩ := h (n + 1)
  rw [magnitudeAt_succ, ← sub_sub] at hn he
  rw [abs_le_abs_sub_iff hg] at hn
  rw [abs_sub_eq_abs_iff hg] at he
  rcases Nat.eq_zero_or_pos n with rfl | h₀
  · have hz : 2 * (f.magnitudeAt 0 - q) < f.gapAt (0 - 1) := by
      rw [magnitudeAt_zero]
      linarith [f.gapAt_pos 0]
    exact ⟨hn, fun _ => ⟨0, rfl⟩, hz.le, fun h => absurd h hz.ne⟩
  · have hg' := f.gapAt_pos (n - 1)
    have hs := f.magnitudeAt_succ (n - 1)
    rw [Nat.sub_add_cancel h₀] at hs
    obtain ⟨hn', he'⟩ := h (n - 1)
    have hd : f.magnitudeAt (n - 1) - q = f.magnitudeAt n - q - f.gapAt (n - 1) := by
      rw [hs]
      ring
    rw [abs_sub_comm q, abs_sub_comm q, hd, abs_le_abs_sub_iff hg'] at hn'
    rw [abs_sub_comm q, abs_sub_comm q, hd, abs_sub_eq_abs_iff hg'] at he'
    exact ⟨hn, he (Nat.succ_ne_self n), hn', he' (by omega)⟩

theorem Within.nearestAt (h : f.Within q n) : f.NearestAt q n := by
  intro m
  rcases Nat.lt_trichotomy m n with hm | rfl | hm
  · have hg := f.gapAt_pos (n - 1)
    have hw : f.gapAt (n - 1) ≤ f.magnitudeAt n - f.magnitudeAt m := by
      linarith [magnitudeAt_le_sub_gapAt hm (f := f)]
    have hd : f.magnitudeAt m - q = f.magnitudeAt n - q - (f.magnitudeAt n - f.magnitudeAt m) := by
      ring
    rw [abs_sub_comm q, abs_sub_comm q, hd, abs_le_abs_sub_iff (hg.trans_le hw),
      abs_sub_eq_abs_iff (hg.trans_le hw)]
    exact ⟨h.below.trans hw, fun _ he => h.even_below (le_antisymm h.below (he ▸ hw))⟩
  · exact ⟨le_rfl, fun hm => absurd rfl hm⟩
  · have hg := f.gapAt_pos n
    have hw : f.gapAt n ≤ f.magnitudeAt m - f.magnitudeAt n := by
      linarith [magnitudeAt_add_gapAt_le hm (f := f)]
    have hd : q - f.magnitudeAt m = q - f.magnitudeAt n - (f.magnitudeAt m - f.magnitudeAt n) := by
      ring
    rw [hd, abs_le_abs_sub_iff (hg.trans_le hw), abs_sub_eq_abs_iff (hg.trans_le hw)]
    exact ⟨h.above.trans hw, fun _ he => h.even_above (le_antisymm h.above (he ▸ hw))⟩

/-- The nearest magnitude, by the gaps around it. -/
theorem nearestAt_iff (hq : 0 ≤ q) : f.NearestAt q n ↔ f.Within q n :=
  ⟨fun h => h.within hq, Within.nearestAt⟩

/-- A number is within the gaps if it is within a width that is no wider than the gap behind, and,
unless the number lies on that side, no wider than the gap before. -/
theorem within_of_abs (h : 2 * |q - f.magnitudeAt n| ≤ w)
    (he : 2 * |q - f.magnitudeAt n| = w → Even n) (habove : w ≤ f.gapAt n)
    (hbelow : w ≤ f.gapAt (n - 1) ∨ f.magnitudeAt n ≤ q) : f.Within q n := by
  have h₁ := le_abs_self (q - f.magnitudeAt n)
  have h₂ := neg_le_abs (q - f.magnitudeAt n)
  have h₃ := f.gapAt_pos (n - 1)
  refine ⟨by linarith, fun h => he (by linarith), ?_, fun h => he ?_⟩ <;>
    rcases hbelow with hb | hb <;> linarith

theorem within_of_abs_lt (h : 2 * |q - f.magnitudeAt n| < f.gapAt (n - 1)) : f.Within q n :=
  within_of_abs h.le (fun he => absurd he h.ne) (gapAt_le_gapAt (Nat.sub_le n 1)) (.inl le_rfl)

/-- A number that is no farther away than one within the gaps is within them, too, unless the two
lie on different sides, of which that of the nearer one has the narrower gap. -/
theorem Within.of_abs_le {p : ℚ} (h : f.Within p n)
    (hq : |q - f.magnitudeAt n| ≤ |p - f.magnitudeAt n|)
    (hs : ¬ f.Widens n ∨ p ≤ f.magnitudeAt n ∨ f.magnitudeAt n ≤ q) : f.Within q n := by
  have hle : f.gapAt (n - 1) ≤ f.gapAt n := gapAt_le_gapAt (Nat.sub_le n 1)
  -- it suffices that the farther one is within a width that the side of the nearer one has
  have key {w : ℚ} (hw : 2 * |p - f.magnitudeAt n| ≤ w)
      (he : 2 * |p - f.magnitudeAt n| = w → Even n) (ha : w ≤ f.gapAt n)
      (hb : w ≤ f.gapAt (n - 1) ∨ f.magnitudeAt n ≤ q) : f.Within q n :=
    within_of_abs (by linarith) (fun h => he (by linarith)) ha hb
  rcases le_total p (f.magnitudeAt n) with hp | hp
  · have hd : |p - f.magnitudeAt n| = f.magnitudeAt n - p := by
      rw [abs_of_nonpos (sub_nonpos.2 hp), neg_sub]
    rw [hd] at key
    exact key h.below h.even_below hle (.inl le_rfl)
  · rw [abs_of_nonneg (sub_nonneg.2 hp)] at key
    refine key h.above h.even_above le_rfl ?_
    rcases hs with hs | hs | hs
    · exact .inl (gapAt_pred_of_not_widens hs).ge
    · -- the farther one is the magnitude itself
      obtain rfl := le_antisymm hs hp
      rw [sub_self, abs_zero, abs_nonpos_iff, sub_eq_zero] at hq
      exact .inr hq.ge
    · exact .inr hs

/-- A whole number of units of the last place is within the gaps around a magnitude only if it is
that magnitude. -/
theorem Within.eq_significandAt (h : f.Within (k * f.gapAt n) n) : k = f.significandAt n := by
  by_contra hne
  have hg := f.gapAt_pos n
  have hpred : f.gapAt (n - 1) ≤ f.gapAt n := gapAt_le_gapAt (Nat.sub_le n 1)
  have habove := h.above
  have hbelow := h.below
  have hle := mul_le_mul_of_nonneg_right (RoundsToNat.one_le_abs_sub hne) hg.le
  rw [← abs_of_pos hg, ← abs_mul, abs_of_pos hg, sub_mul, ← magnitudeAt, one_mul] at hle
  rcases le_abs'.1 hle with hle | hle <;> linarith

/-- Only one magnitude is the nearest. -/
theorem NearestAt.unique (hm : f.NearestAt q m) (hn : f.NearestAt q n) : m = n := by
  wlog hlt : m < n generalizing m n
  · rcases (not_lt.1 hlt).eq_or_lt with h | h
    · exact h.symm
    · exact (this hn hm h).symm
  -- both are even, so that a magnitude lies between them, and it is nearer
  have he : |q - f.magnitudeAt n| = |q - f.magnitudeAt m| := le_antisymm (hn m).1 (hm n).1
  have hme := (hm n).2 hlt.ne' he
  have hne := (hn m).2 hlt.ne he.symm
  obtain ⟨a, rfl⟩ := hme
  obtain ⟨b, rfl⟩ := hne
  have h₁ : f.magnitudeAt (a + a) < f.magnitudeAt (a + a + 1) :=
    f.strictMono_magnitudeAt (Nat.lt_succ_self _)
  have h₂ : f.magnitudeAt (a + a + 1) < f.magnitudeAt (b + b) :=
    f.strictMono_magnitudeAt (by omega)
  have hd : q - f.magnitudeAt (b + b) =
      q - f.magnitudeAt (a + a) - (f.magnitudeAt (b + b) - f.magnitudeAt (a + a)) := by ring
  rw [hd, abs_sub_eq_abs_iff (by linarith)] at he
  have hd' : q - f.magnitudeAt (a + a + 1) =
      q - f.magnitudeAt (a + a) - (f.magnitudeAt (a + a + 1) - f.magnitudeAt (a + a)) := by ring
  have hn := (hm (a + a + 1)).1
  rw [hd', abs_le_abs_sub_iff (by linarith)] at hn
  linarith

/-! ### Units of a place -/

/-- A number that is rounded to a whole number of units of a place, and that is large enough for the
place unless this is the least one, is rounded to the magnitude of these units. -/
theorem within_of_roundsToNat {g : ℚ} (hf : Even f.fractions) (hg : g = 2 ^ (f.leastPlace + k))
    (hs : RoundsToNat (q / g) s) (hu : q < (2 * f.fractions : ℕ) * g)
    (hl : k = 0 ∨ f.fractions * g ≤ q) : f.Within q (k * f.fractions + s) := by
  have hg₀ : 0 < g := hg ▸ zpow_pos two_pos _
  have hsu : s ≤ 2 * f.fractions := hs.le_of_lt ((div_lt_iff₀ hg₀).2 hu)
  have hsl : k = 0 ∨ f.fractions ≤ s := hl.imp_right fun h => hs.le_of_le ((le_div_iff₀ hg₀).2 h)
  have hm : f.magnitudeAt (k * f.fractions + s) = s * g := by
    rw [magnitudeAt_mul_add hsu hsl, hg]
  have hh : 2 * |q - s * g| ≤ g := hs.abs_sub_mul_le hg₀
  have he (h : 2 * |q - s * g| = g) : Even (k * f.fractions + s) := by
    refine (hf.mul_left k).add (hs.2 ?_)
    rw [RoundsToNat.abs_sub_mul hg₀, ← mul_assoc, mul_eq_right₀ hg₀.ne'] at h
    linarith
  have habove : g ≤ f.gapAt (k * f.fractions + s) := hg ▸ zpow_le_gapAt hsl
  -- below the least significand at its place the gap is narrower, but the number is not there
  have hbelow : g ≤ f.gapAt (k * f.fractions + s - 1) ∨ s * g ≤ q := by
    have hn (h : k = 0 ∨ f.fractions ≤ s - 1)
        (hs : k * f.fractions + s - 1 = k * f.fractions + (s - 1)) :
        g ≤ f.gapAt (k * f.fractions + s - 1) := by
      rw [hg, hs]
      exact zpow_le_gapAt h
    rcases hl with hl | hl
    · exact .inl (hn (.inl hl) (by rw [hl, zero_mul, zero_add, zero_add]))
    rcases hsl with hsl | hsl
    · exact .inl (hn (.inl hsl) (by rw [hsl, zero_mul, zero_add, zero_add]))
    rcases hsl.eq_or_lt with rfl | hsl
    · exact .inr hl
    · exact .inl (hn (.inr (by omega)) (by omega))
  rw [← hm] at hh he hbelow
  exact within_of_abs hh he habove hbelow

end FloatFormat

end ScriptBase

import ScriptBase.Proofs.Floating.Magnitudes

/-!
# Rounding to the nearest floating-point number

A rational number is rounded to a finite number if no finite number is nearer to it, to one with an
even significand if another one is equally near, and if it is nearer to the greatest finite number
than to the magnitude that would follow. This rule says nothing of how the number is found. The
number that is found by scaling a quotient and rounding it to a whole number is the one of the rule.

## Main definitions

* `ScriptBase.Floating.RoundsTo`: the finite number that a number is rounded to.

## Main results

* `ScriptBase.Floating.roundsTo_iff`: rounding by the bits of magnitudes.
* `ScriptBase.Floating.nearest_eq_iff`: the number that is found is the one of the rule.
-/

namespace ScriptBase

namespace Ratio

/-- A number is as large as its highest binary digits tell. -/
theorem two_zpow_lt_and_lt (r : Ratio) (hr : r.num ≠ 0) :
    (2 : ℚ) ^ ((r.num.log2 : ℤ) - r.den.log2 - 1) < r.toRat ∧
      r.toRat < 2 ^ ((r.num.log2 : ℤ) - r.den.log2 + 1) := by
  have hd : r.den ≠ 0 := r.den_pos.ne'
  have h₁ : (2 : ℚ) ^ r.num.log2 ≤ r.num := by exact_mod_cast Nat.log2_self_le hr
  have h₂ : (r.num : ℚ) < 2 ^ (r.num.log2 + 1) := by exact_mod_cast Nat.lt_log2_self
  have h₃ : (2 : ℚ) ^ r.den.log2 ≤ r.den := by exact_mod_cast Nat.log2_self_le hd
  have h₄ : (r.den : ℚ) < 2 ^ (r.den.log2 + 1) := by exact_mod_cast Nat.lt_log2_self
  constructor
  · rw [toRat, lt_div_iff₀ r.den_cast_pos]
    calc (2 : ℚ) ^ ((r.num.log2 : ℤ) - r.den.log2 - 1) * r.den
        < 2 ^ ((r.num.log2 : ℤ) - r.den.log2 - 1) * 2 ^ (r.den.log2 + 1) :=
          mul_lt_mul_of_pos_left h₄ (zpow_pos two_pos _)
      _ = 2 ^ r.num.log2 := by
          rw [← zpow_natCast, ← zpow_natCast, ← zpow_add₀ two_ne_zero]
          congr 1
          push_cast
          ring
      _ ≤ r.num := h₁
  · rw [toRat, div_lt_iff₀ r.den_cast_pos]
    calc (r.num : ℚ) < 2 ^ (r.num.log2 + 1) := h₂
      _ = 2 ^ ((r.num.log2 : ℤ) - r.den.log2 + 1) * 2 ^ r.den.log2 := by
          rw [← zpow_natCast, ← zpow_natCast, ← zpow_add₀ two_ne_zero]
          congr 1
          push_cast
          ring
      _ ≤ 2 ^ ((r.num.log2 : ℤ) - r.den.log2 + 1) * r.den :=
          mul_le_mul_of_nonneg_left h₃ (zpow_pos two_pos _).le

end Ratio

namespace Floating

variable {f : FloatFormat} {x y : Floating f} {q : ℚ} {n : ℕ}

/-! ### Finding the nearest magnitude -/

/-- A power of two at a place has one bit more than a fraction. -/
theorem fractions_mul_zpow (f : FloatFormat) (k : ℤ) :
    (f.fractions : ℚ) * 2 ^ k = 2 ^ (f.fractionBits + k) := by
  rw [zpow_add₀ two_ne_zero, zpow_natCast, FloatFormat.fractions, Nat.pow_eq, Nat.cast_pow,
    Nat.cast_ofNat]

theorem toRat_scale_two_neg (r : Ratio) (k : ℤ) : (r.scale .two (-k)).toRat = r.toRat / 2 ^ k := by
  rw [Ratio.toRat_scale, zpow_neg, div_eq_mul_inv]
  rfl

/-- At the place that is chosen for a quotient, it takes no more than the bits of a significand, and
all of them unless the place is the least one. -/
theorem placeFor_spec (f : FloatFormat) (r : Ratio) :
    f.leastPlace ≤ placeFor f r ∧ r.toRat < (2 * f.fractions : ℕ) * 2 ^ placeFor f r ∧
      (placeFor f r = f.leastPlace ∨ f.fractions * 2 ^ placeFor f r ≤ r.toRat) := by
  unfold placeFor
  split
  case isTrue h =>
    have hF : 0 < 2 * f.fractions := Nat.mul_pos two_pos f.fractions_pos
    rw [Ratio.toRat_eq_zero_iff.2 h]
    exact ⟨le_rfl, mul_pos (Nat.cast_pos.2 hF) (zpow_pos two_pos _), .inl rfl⟩
  case isFalse h =>
    obtain ⟨hl, hu⟩ := r.two_zpow_lt_and_lt h
    generalize hg : max ((r.num.log2 : ℤ) - r.den.log2 - (f.fractionBits + 1)) f.leastPlace = guess
    have hd (k : ℤ) : ((2 * f.fractions : ℕ) : ℚ) * 2 ^ k = 2 ^ (f.fractionBits + k + 1) := by
      rw [zpow_add_one₀ two_ne_zero, ← fractions_mul_zpow, Nat.cast_mul, Nat.cast_ofNat]
      ring
    have hc : (r.scale .two (-guess)).floor < 2 * f.fractions ↔
        r.toRat < (2 * f.fractions : ℕ) * 2 ^ guess := by
      rw [Ratio.floor_lt_iff, toRat_scale_two_neg, div_lt_iff₀ (zpow_pos two_pos _)]
    dsimp only
    split
    case isTrue h₁ =>
      rw [hc] at h₁
      refine ⟨by omega, h₁, ?_⟩
      rcases max_choice ((r.num.log2 : ℤ) - r.den.log2 - (f.fractionBits + 1)) f.leastPlace with
        he | he
      · refine .inr (le_trans (le_of_eq ?_) hl.le)
        rw [fractions_mul_zpow]
        congr 1
        omega
      · exact .inl (hg ▸ he)
    case isFalse h₁ =>
      rw [hc, not_lt, hd] at h₁
      refine ⟨by omega, hu.trans_le ?_, .inr (le_trans (le_of_eq ?_) h₁)⟩
      · rw [hd]
        exact zpow_le_zpow_right₀ one_le_two (by omega)
      · rw [fractions_mul_zpow, add_assoc]

/-- The bits of what a quotient is rounded to, also behind those of finite numbers. -/
def roundedBits (f : FloatFormat) (r : Ratio) : ℕ :=
  (placeFor f r - f.leastPlace).toNat * f.fractions + (r.scale .two (-placeFor f r)).round

/-- The bits that are found are those of the nearest magnitude. -/
theorem nearestAt_roundedBits (hf : Even f.fractions) (r : Ratio) :
    f.NearestAt r.toRat (roundedBits f r) := by
  obtain ⟨hp, hu, hl⟩ := placeFor_spec f r
  obtain ⟨k, hk⟩ := Int.le.dest hp
  have hs := (r.scale .two (-placeFor f r)).roundsToNat_round
  rw [toRat_scale_two_neg] at hs
  have hkn : (placeFor f r - f.leastPlace).toNat = k := by omega
  rw [roundedBits, hkn]
  refine (FloatFormat.within_of_roundsToNat hf (by rw [hk]) hs hu ?_).nearestAt
  exact hl.imp_left fun h => by omega

/-! ### Numbers by their bits -/

/-- The bits of a number without its sign. -/
def magnitudeBits (x : Floating f) : ℕ := x.bits % f.signBits

theorem signBits_pos (f : FloatFormat) : 0 < f.signBits :=
  Nat.mul_pos f.exponents_pos f.fractions_pos

theorem bits_lt (x : Floating f) : x.bits < 2 * f.signBits := by
  rw [← f.pow_width]
  exact x.word.isLt

theorem magnitudeBits_lt (x : Floating f) : x.magnitudeBits < f.signBits :=
  Nat.mod_lt _ (signBits_pos f)

theorem infinityBits_lt_signBits (f : FloatFormat) : f.infinityBits < f.signBits := by
  have := f.infinityBits_add_fractions
  have := f.fractions_pos
  omega

theorem bits_ofSignBits {negative : Bool} (h : n < f.signBits) :
    (ofSignBits f negative n).bits = if negative then f.signBits + n else n := by
  have hw := f.pow_width
  unfold ofSignBits bits ofBits
  rw [BitVec.toNat_ofNat, ← Nat.pow_eq, hw]
  exact Nat.mod_eq_of_lt (by cases negative <;> simp <;> omega)

theorem magnitudeBits_ofSignBits (negative : Bool) (h : n < f.signBits) :
    (ofSignBits f negative n).magnitudeBits = n := by
  rw [magnitudeBits, bits_ofSignBits h]
  cases negative
  · exact Nat.mod_eq_of_lt h
  · simpa using Nat.mod_eq_of_lt h

theorem ext_bits (h : x.bits = y.bits) : x = y := by
  obtain ⟨v⟩ := x
  obtain ⟨w⟩ := y
  exact congrArg mk (BitVec.eq_of_toNat_eq h)

/-- A number is made of its sign and the bits of its magnitude. -/
theorem eq_ofSignBits (x : Floating f) : x = ofSignBits f x.isNegative x.magnitudeBits := by
  have hb := x.bits_lt
  refine ext_bits ?_
  rw [bits_ofSignBits x.magnitudeBits_lt, isNegative, magnitudeBits]
  by_cases h : f.signBits ≤ x.bits
  · rw [decide_eq_true h, if_pos rfl, Nat.mod_eq_sub_mod h, Nat.mod_eq_of_lt (by omega)]
    omega
  · rw [decide_eq_false h, Nat.mod_eq_of_lt (by omega)]
    rfl

theorem exponentField_eq (x : Floating f) : x.exponentField = x.magnitudeBits / f.fractions :=
  (Nat.mod_mul_left_div_self x.bits f.fractions f.exponents).symm

theorem fraction_eq (x : Floating f) : x.fraction = x.magnitudeBits % f.fractions :=
  (Nat.mod_mul_left_mod x.bits f.exponents f.fractions).symm

theorem significand_eq (x : Floating f) : x.significand = f.significandAt x.magnitudeBits := by
  rw [significand, exponentField_eq, fraction_eq]
  rfl

theorem place_eq (x : Floating f) : x.place = f.placeAt x.magnitudeBits := by
  rw [place, exponentField_eq]
  rfl

theorem toRat_magnitude (x : Floating f) : x.magnitude.toRat = f.magnitudeAt x.magnitudeBits := by
  rw [magnitude, Ratio.toRat_scale, Ratio.toRat_ofNat, significand_eq, place_eq]
  rfl

/-- A number is finite if its magnitude lies before the infinity. -/
theorem isFinite_iff : x.isFinite = true ↔ x.magnitudeBits < f.infinityBits := by
  have hl : x.magnitudeBits / f.fractions < f.exponents :=
    (Nat.div_lt_iff_lt_mul f.fractions_pos).2 x.magnitudeBits_lt
  rw [isFinite, exponentField_eq, bne_iff_ne, FloatFormat.infinityBits,
    ← Nat.div_lt_iff_lt_mul f.fractions_pos, FloatFormat.topField]
  omega

/-- Bits before those of the infinity are the bits of a finite number. -/
theorem exists_isFinite (hn : n < f.infinityBits) :
    ∃ y : Floating f, y.isFinite = true ∧ y.magnitudeBits = n := by
  have hb := magnitudeBits_ofSignBits false (hn.trans (infinityBits_lt_signBits f))
  exact ⟨_, isFinite_iff.2 (by rwa [hb]), hb⟩

theorem widens_iff : f.Widens x.magnitudeBits ↔ x.fraction = 0 ∧ 1 < x.exponentField := by
  rw [fraction_eq, exponentField_eq, FloatFormat.Widens]

end Floating

/-! ### The rule -/

/-- From this number on, which is halfway between the greatest finite magnitude and the one that
would follow, numbers are rounded to the infinity. -/
def FloatFormat.overflow (f : FloatFormat) : ℚ :=
  (f.magnitudeAt (f.infinityBits - 1) + f.magnitudeAt f.infinityBits) / 2

/-- Before that number the greatest finite magnitude is nearer than those that would follow. -/
theorem FloatFormat.abs_sub_lt_of_lt_overflow {f : FloatFormat} {q : ℚ} {m n : ℕ}
    (hq : q < f.overflow) (hn : n + 1 = f.infinityBits) (hm : f.infinityBits ≤ m) :
    |q - f.magnitudeAt n| < |q - f.magnitudeAt m| := by
  have hpred : f.infinityBits - 1 = n := by omega
  have hle : f.magnitudeAt f.infinityBits ≤ f.magnitudeAt m := f.strictMono_magnitudeAt.monotone hm
  have hlt : f.magnitudeAt n < f.magnitudeAt f.infinityBits := f.strictMono_magnitudeAt (by omega)
  rw [overflow, hpred, lt_div_iff₀ two_pos] at hq
  rw [abs_sub_comm q (f.magnitudeAt m)]
  refine lt_of_lt_of_le (abs_lt.2 ⟨?_, ?_⟩) (le_abs_self _) <;> linarith

namespace Floating

variable {f : FloatFormat} {x y : Floating f} {q : ℚ} {n : ℕ}

/-- A number `q` is rounded to `x` if no finite magnitude is nearer, and another one that is equally
near belongs to an odd significand. Numbers of both signs have the same magnitudes, so this is the
rule for numbers with a sign, too, which is kept. -/
structure RoundsTo (q : ℚ) (x : Floating f) : Prop where
  isFinite : x.isFinite = true
  inRange : q < f.overflow
  nearest : ∀ y : Floating f, y.isFinite = true → |q - x.magnitude.toRat| ≤ |q - y.magnitude.toRat|
  even : ∀ y : Floating f, y.isFinite = true → y.magnitude.toRat ≠ x.magnitude.toRat →
    |q - y.magnitude.toRat| = |q - x.magnitude.toRat| → Even x.significand

section Rule

variable (hf : Even f.fractions)

include hf

/-- The greatest finite magnitude is odd, so what is halfway to the next one is not rounded to it.
-/
theorem lt_overflow_of_nearestAt (hn : n < f.infinityBits) (h : f.NearestAt q n) :
    q < f.overflow := by
  by_contra hq
  rw [FloatFormat.overflow, not_lt, div_le_iff₀ two_pos] at hq
  have hlt := f.strictMono_magnitudeAt hn
  have hle : f.magnitudeAt n ≤ f.magnitudeAt (f.infinityBits - 1) :=
    f.strictMono_magnitudeAt.monotone (by omega)
  obtain ⟨h₁, h₂⟩ := h f.infinityBits
  have hd : q - f.magnitudeAt f.infinityBits =
      q - f.magnitudeAt n - (f.magnitudeAt f.infinityBits - f.magnitudeAt n) := by ring
  rw [hd, FloatFormat.abs_le_abs_sub_iff (sub_pos.2 hlt)] at h₁
  rw [hd, FloatFormat.abs_sub_eq_abs_iff (sub_pos.2 hlt)] at h₂
  have he : n = f.infinityBits - 1 :=
    f.strictMono_magnitudeAt.injective (le_antisymm hle (by linarith))
  have hodd : ¬ Even n := by
    rw [he, Nat.not_even_iff_odd]
    exact Nat.Even.sub_odd (by omega) (hf.mul_left _) odd_one
  exact hodd (h₂ hn.ne' (by linarith))

/-- Rounding to a finite number, by the bits of magnitudes. -/
theorem roundsTo_iff :
    RoundsTo q x ↔ x.magnitudeBits < f.infinityBits ∧ f.NearestAt q x.magnitudeBits := by
  constructor
  · rintro ⟨hfin, hr, hn, he⟩
    have hx := isFinite_iff.1 hfin
    refine ⟨hx, fun m => ?_⟩
    rw [← toRat_magnitude]
    rcases Nat.lt_or_ge m f.infinityBits with hm | hm
    · obtain ⟨y, hy, rfl⟩ := exists_isFinite hm
      rw [← toRat_magnitude]
      refine ⟨hn y hy, fun hne h => ?_⟩
      rw [← FloatFormat.even_significandAt_iff hf, ← significand_eq]
      refine he y hy ?_ h
      rw [toRat_magnitude, toRat_magnitude]
      exact f.strictMono_magnitudeAt.injective.ne hne
    · -- behind the finite magnitudes, the greatest of these is nearer
      obtain ⟨n, hl⟩ : ∃ n, n + 1 = f.infinityBits := ⟨f.infinityBits - 1, by omega⟩
      obtain ⟨y, hy, rfl⟩ := exists_isFinite (by omega : n < f.infinityBits)
      have hle := hn y hy
      have hlt := FloatFormat.abs_sub_lt_of_lt_overflow hr hl hm
      rw [← toRat_magnitude] at hlt
      exact ⟨hle.trans hlt.le, fun _ h => absurd h (hle.trans_lt hlt).ne'⟩
  · rintro ⟨hx, h⟩
    refine ⟨isFinite_iff.2 hx, lt_overflow_of_nearestAt hf hx h, fun y _ => ?_,
      fun y _ hne he => ?_⟩
    · rw [toRat_magnitude, toRat_magnitude]
      exact (h y.magnitudeBits).1
    · rw [toRat_magnitude, toRat_magnitude] at he hne
      rw [significand_eq, FloatFormat.even_significandAt_iff hf]
      exact (h y.magnitudeBits).2 (fun hb => hne (congrArg _ hb)) he

/-- Rounding a number that is not negative, by the gaps around magnitudes. -/
theorem roundsTo_iff_within (hq : 0 ≤ q) :
    RoundsTo q x ↔ x.isFinite = true ∧ f.Within q x.magnitudeBits := by
  rw [roundsTo_iff hf, isFinite_iff, FloatFormat.nearestAt_iff hq]

/-- The number that is found for a quotient is a finite one exactly if the quotient is rounded to
it. -/
theorem nearest_eq_iff {negative : Bool} {r : Ratio} (hx : x.isFinite = true) :
    nearest f negative r = x ↔ x.isNegative = negative ∧ RoundsTo r.toRat x := by
  have hr := nearestAt_roundedBits hf r
  have hn : nearest f negative r =
    ofSignBits f negative (min (roundedBits f r) f.infinityBits) := rfl
  have hb : (nearest f negative r).magnitudeBits = min (roundedBits f r) f.infinityBits := by
    rw [hn]
    exact magnitudeBits_ofSignBits negative
      ((min_le_right _ _).trans_lt (infinityBits_lt_signBits f))
  rw [roundsTo_iff hf]
  constructor
  · rintro rfl
    rw [isFinite_iff] at hx
    refine ⟨isNegative_nearest _ _ _, hx, ?_⟩
    rw [hb] at hx ⊢
    rwa [min_eq_left (by omega)]
  · rintro ⟨rfl, hx, h⟩
    rw [hn, hr.unique h, min_eq_left hx.le, ← eq_ofSignBits]

/-- A number is rounded to one finite number of its sign only. -/
theorem RoundsTo.unique (hx : RoundsTo q x) (hy : RoundsTo q y)
    (hs : x.isNegative = y.isNegative) : x = y := by
  rw [roundsTo_iff hf] at hx hy
  rw [x.eq_ofSignBits, y.eq_ofSignBits, hs, hx.2.unique hy.2]

end Rule

end Floating

theorem even_fractions_binary64 : Even binary64.fractions := by decide +kernel

/-- The greatest finite number of 64 bits is followed by the power of two that it is rounded to. -/
example : binary64.overflow = 2 ^ 1024 - 2 ^ 970 := by
  decide +kernel

end ScriptBase

import ScriptBase.Proofs.Floating.Numerals
import ScriptBase.Proofs.Floating.Rounding
import ScriptBase.Value.Render

/-!
# Default texts read back

The default text of a finite number is a numeral with its sign that is rounded to it. The number of
digits is searched for by trying, and seventeen digits need no trial: the numeral is off by less
than a part in `2 ^ 53`, so by less than half a gap, and by less than a quarter of it where the gap
before the number is the narrower one.

The text in fixed notation is written anew from the exact number, with the places that the numeral
has. This rounds to the same numeral, unless the digits of the numeral end before the point. Then
the numeral is an even whole number below `2 ^ 54`, and it is the number itself.

## Main definitions

* `ScriptBase.DecimalNumeral.ReadsAs`: a numeral is rounded to a number with its sign.
* `ScriptBase.Floating.shortest`: the numeral that the default text is chosen by.

## Main results

* `ScriptBase.Floating.fewestDigits_spec`: what the search for the number of digits finds.
* `ScriptBase.Floating.roundsTo_seventeen`: seventeen digits read back.
* `ScriptBase.Floating.exists_text`: the default text is a numeral of the value it is chosen by.
* `ScriptBase.Floating.plain_reads_back`: default texts read back, so they tell numbers apart.
-/

namespace ScriptBase

/-- A numeral *reads as* a number if it has the sign of the number and is rounded to it. -/
structure DecimalNumeral.ReadsAs {f : FloatFormat} (m : DecimalNumeral) (x : Floating f) :
    Prop where
  sign : m.sign.isMinus = x.isNegative
  rounds : Floating.RoundsTo m.magnitude x

namespace Floating

/-! ### The search for the number of digits -/

section Format

variable {f : FloatFormat} {x : Floating f}

theorem num_magnitude_eq_zero_iff : x.magnitude.num = 0 ↔ x.magnitudeBits = 0 := by
  rw [← Ratio.toRat_eq_zero_iff, toRat_magnitude, ← f.magnitudeAt_zero]
  exact f.strictMono_magnitudeAt.injective.eq_iff

theorem roundsTo_of_within (hf : Even f.fractions) (hx : x.isFinite = true) {q : ℚ} (hq : 0 ≤ q)
    (h : f.Within q x.magnitudeBits) : RoundsTo q x :=
  (roundsTo_iff_within hf hq).2 ⟨hx, h⟩

/-- A finite number is rounded to itself. -/
theorem roundsTo_self (hf : Even f.fractions) (hx : x.isFinite = true) :
    RoundsTo x.magnitude.toRat x := by
  refine roundsTo_of_within hf hx x.magnitude.toRat_nonneg (FloatFormat.within_of_abs_lt ?_)
  rw [toRat_magnitude, sub_self, abs_zero, mul_zero]
  exact f.gapAt_pos _

theorem readsBack_iff (hf : Even f.fractions) (hx : x.isFinite = true) {s : Scientific} :
    x.readsBack s = true ↔ RoundsTo s.value.toRat x := by
  rw [readsBack, beq_iff_eq, nearest_eq_iff hf hx, and_iff_right rfl]

/-- The search ends at the first number of digits that reads back, or where no trial is left. -/
theorem fewestDigits_spec (x : Floating f) (digits fuel : ℕ) :
    let d := x.fewestDigits digits fuel
    digits ≤ d ∧ d ≤ digits + fuel ∧
      (d < digits + fuel → x.readsBack (x.magnitude.toScientific d) = true) ∧
      ∀ k, digits ≤ k → k < d → x.readsBack (x.magnitude.toScientific k) = false := by
  induction fuel generalizing digits with
  | zero =>
    rw [fewestDigits]
    exact ⟨le_rfl, le_rfl, fun h => absurd h (lt_irrefl _), fun k h h' => by omega⟩
  | succ fuel ih =>
    rw [fewestDigits]
    split
    case isTrue h => exact ⟨le_rfl, by omega, fun _ => h, fun k h h' => by omega⟩
    case isFalse h =>
      obtain ⟨h₁, h₂, h₃, h₄⟩ := ih (digits + 1)
      refine ⟨by omega, by omega, fun hd => h₃ (by omega), fun k hk hkd => ?_⟩
      rcases hk.eq_or_lt with rfl | hk
      · simpa using h
      · exact h₄ k hk hkd

/-- The numeral that the default text is chosen by. -/
def shortest (x : Floating f) : Scientific :=
  x.magnitude.toScientific (x.shortestDigits defaultStyle)

theorem shortestDigits_pos (x : Floating f) : 0 < x.shortestDigits defaultStyle :=
  (x.fewestDigits_spec 1 _).1

/-- With fewer digits than the default text is chosen by, the nearest numeral is not rounded back.
-/
theorem not_roundsTo_of_lt (hf : Even f.fractions) (hx : x.isFinite = true) {k : ℕ} (hk : 0 < k)
    (h : k < x.shortestDigits defaultStyle) :
    ¬ RoundsTo (x.magnitude.toScientific k).value.toRat x := by
  have hs := (x.fewestDigits_spec 1 (defaultStyle.mostDigits - 1)).2.2.2 k hk h
  rw [← readsBack_iff hf hx, hs]
  exact Bool.false_ne_true

end Format

/-! ### Seventeen digits -/

variable {x : Binary64}

theorem fractions_binary64 : binary64.fractions = 2 ^ 52 := rfl

/-- The numeral with seventeen digits is rounded back. -/
theorem roundsTo_seventeen (hx : x.isFinite = true) :
    RoundsTo (x.magnitude.toScientific 17).value.toRat x := by
  by_cases hr : x.magnitude.num = 0
  · have h := roundsTo_self even_fractions_binary64 hx
    rw [Ratio.toRat_eq_zero_iff.2 hr] at h
    rw [Ratio.toRat_value_toScientific, Ratio.toScientific_of_eq_zero hr]
    simpa using h
  obtain ⟨units, hw⟩ := Ratio.toScientific_spec hr (by decide : 0 < 17)
  have herr : 10 ^ 16 * (2 * |x.magnitude.toRat -
      (x.magnitude.toScientific 17).value.toRat|) ≤ x.magnitude.toRat := hw.pow_mul_abs_sub_le hr
  refine roundsTo_of_within even_fractions_binary64 hx (Ratio.toRat_nonneg _)
    (FloatFormat.within_of_abs_lt ?_)
  rw [toRat_magnitude, abs_sub_comm] at herr
  have hg := binary64.gapAt_pos x.magnitudeBits
  by_cases hwid : binary64.Widens x.magnitudeBits
  · have hgap := FloatFormat.gapAt_pred_of_widens hwid
    have hsig : binary64.significandAt x.magnitudeBits = 2 ^ 52 := by
      rw [FloatFormat.significandAt, if_neg (by have := hwid.2; omega), hwid.1, add_zero,
        fractions_binary64]
    have hm : binary64.magnitudeAt x.magnitudeBits = 2 ^ 52 * binary64.gapAt x.magnitudeBits := by
      rw [FloatFormat.magnitudeAt, hsig]
      norm_num
    linarith
  · rw [FloatFormat.gapAt_pred_of_not_widens hwid]
    have hsig : (binary64.significandAt x.magnitudeBits : ℚ) ≤ 2 ^ 53 := by
      have := (binary64.eq_mul_add_significandAt x.magnitudeBits).2.1
      rw [fractions_binary64] at this
      exact_mod_cast this.le
    have hm := mul_le_mul_of_nonneg_right hsig hg.le
    rw [← FloatFormat.magnitudeAt] at hm
    linarith

/-- The numeral that the default text is chosen by is rounded back. -/
theorem roundsTo_shortest (hx : x.isFinite = true) : RoundsTo x.shortest.value.toRat x := by
  obtain ⟨-, hle, hr, -⟩ := x.fewestDigits_spec 1 (defaultStyle.mostDigits - 1)
  rw [shortest, shortestDigits]
  rcases hle.eq_or_lt with he | hlt
  · rw [he]
    exact roundsTo_seventeen hx
  · exact (readsBack_iff even_fractions_binary64 hx).1 (hr hlt)

/-! ### The plain range -/

/-- Below `10 ^ 16` the last place of a number is that of twos, or a finer one. -/
theorem placeAt_le_one (hq : x.magnitude.toRat < 10 ^ 16) :
    binary64.placeAt x.magnitudeBits ≤ 1 := by
  by_contra hp
  obtain ⟨-, -, hs⟩ := binary64.eq_mul_add_significandAt x.magnitudeBits
  have hleast : binary64.leastPlace = -1074 := by decide +kernel
  have hsig : (2 ^ 52 : ℚ) ≤ binary64.significandAt x.magnitudeBits := by
    rw [fractions_binary64] at hs
    rw [FloatFormat.placeAt, fractions_binary64] at hp
    exact_mod_cast hs.resolve_left fun h => hp (by omega)
  have hgap : (2 : ℚ) ^ (2 : ℤ) ≤ binary64.gapAt x.magnitudeBits :=
    zpow_le_zpow_right₀ one_le_two (by omega)
  have hm := mul_le_mul hsig hgap (by norm_num) (Nat.cast_nonneg _)
  rw [← FloatFormat.magnitudeAt, ← toRat_magnitude] at hm
  norm_num at hm hq
  linarith

/-- Below `10 ^ 16` an even whole number is rounded to a number only if it is equal to it. -/
theorem eq_of_roundsTo_even {j : ℕ} (hq : x.magnitude.toRat < 10 ^ 16)
    (h : RoundsTo (2 * j : ℕ) x) : x.magnitude.toRat = (2 * j : ℕ) := by
  obtain ⟨-, hw⟩ := (roundsTo_iff_within even_fractions_binary64 (Nat.cast_nonneg _)).1 h
  obtain ⟨k, hk⟩ := Int.le.dest (placeAt_le_one hq)
  have hunits : (2 * j : ℕ) = ((j * 2 ^ k : ℕ) : ℚ) * binary64.gapAt x.magnitudeBits := by
    rw [FloatFormat.gapAt]
    push_cast
    rw [mul_assoc, ← zpow_natCast, ← zpow_add₀ two_ne_zero, add_comm, hk, zpow_one, mul_comm]
  rw [hunits] at hw ⊢
  rw [toRat_magnitude, FloatFormat.magnitudeAt, hw.eq_significandAt]

/-- If the digits of the numeral end before the point, in the plain range, then the numeral is a
whole number, and it is the number itself. -/
theorem magnitude_of_lt_exponent (hx : x.isFinite = true)
    (he : x.shortest.exponent < defaultStyle.firstScientific)
    (hlt : (x.shortestDigits defaultStyle - 1 : ℕ) < x.shortest.exponent) :
    ∃ v : ℕ, x.shortest.value.toRat = v ∧ x.magnitude.toRat = v := by
  have hd := x.shortestDigits_pos
  have hr : x.magnitude.num ≠ 0 := fun h => by
    rw [shortest, Ratio.toScientific_of_eq_zero h] at hlt
    exact absurd hlt (not_lt.2 (Int.natCast_nonneg _))
  have hq : x.magnitude.toRat < 10 ^ 16 := by
    obtain ⟨units, h⟩ := Ratio.toScientific_spec hr hd
    have he : x.shortest.exponent < 16 := he
    refine (Ratio.decimalExponent_spec hr).2.trans_le ?_
    rw [← zpow_natCast]
    refine zpow_le_zpow_right₀ (by norm_num) ?_
    rcases h.exponent with ⟨-, h⟩ | ⟨-, h⟩ <;> rw [← shortest] at h <;> omega
  obtain ⟨k, hk⟩ := Int.le.dest hlt
  have hk' : x.shortest.exponent - (x.shortestDigits defaultStyle - 1 : ℕ) = (k + 1 : ℕ) := by
    push_cast
    omega
  have heven : x.shortest.value.toRat = (2 * (5 * 10 ^ k * x.shortest.coefficient) : ℕ) := by
    rw [shortest, Ratio.toRat_value_toScientific, ← shortest, hk', zpow_natCast]
    push_cast
    ring
  have hs := roundsTo_shortest hx
  rw [heven] at hs
  exact ⟨_, heven, eq_of_roundsTo_even hq hs⟩

/-- In the plain range, the places that the numeral has round to the numeral. -/
theorem round_places_shortest (hx : x.isFinite = true)
    (he : x.shortest.exponent < defaultStyle.firstScientific) {p : ℕ}
    (hp : p = ((x.shortestDigits defaultStyle - 1 : ℕ) - x.shortest.exponent).toNat) :
    ((x.magnitude.scale .ten p).round : ℚ) / 10 ^ p = x.shortest.value.toRat := by
  rcases le_or_gt x.shortest.exponent (x.shortestDigits defaultStyle - 1 : ℕ) with hle | hlt
  · have hp' : (p : ℤ) = (x.shortestDigits defaultStyle - 1 : ℕ) - x.shortest.exponent := by omega
    have hr : (x.magnitude.scale .ten p).round = x.shortest.coefficient := by
      rw [Ratio.round_eq_iff, Ratio.toRat_scale_ten, zpow_natCast]
      exact Ratio.roundsToNat_coefficient x.shortestDigits_pos hp'
    have hv := Ratio.toRat_value_toScientific (x.shortestDigits defaultStyle) x.magnitude
    rw [← shortest, ← neg_sub, ← hp', zpow_neg, zpow_natCast, ← div_eq_mul_inv] at hv
    rw [hr, hv]
  · obtain rfl : p = 0 := by omega
    obtain ⟨v, hv, hm⟩ := magnitude_of_lt_exponent hx he hlt
    have hr : (x.magnitude.scale .ten (0 : ℕ)).round = v := by
      rw [Ratio.round_eq_iff, Ratio.toRat_scale_ten, hm, Nat.cast_zero, zpow_zero, mul_one]
      exact .natCast v
    rw [hr, hv, pow_zero, div_one]

/-! ### The default text -/

theorem text_of_isFinite (hx : x.isFinite = true) :
    x.text = (Sign.ofNegative x.isNegative).text ++ x.magnitudeText defaultStyle := by
  have hf : (x.exponentField == binary64.topField) = false := by
    simpa [isFinite] using hx
  rw [text, isNaN, isInfinite, hf, Bool.false_and, Bool.false_and, signText_eq]
  simp

/-- The default text of a finite number is a numeral with a point or with an exponent, and with the
value of the numeral that it is chosen by. -/
theorem exists_text (hx : x.isFinite = true) :
    ∃ m : DecimalNumeral, m.text = x.text ∧ m.sign = Sign.ofNegative x.isNegative ∧
      (m.exponent = none ∧ m.places.isSome ∨ m.exponent.isSome) ∧
      m.magnitude = x.shortest.value.toRat := by
  rw [text_of_isFinite hx, magnitudeText]
  dsimp only
  rw [← shortest]
  split
  case isTrue =>
    obtain ⟨m, ht, hs, he, hm⟩ := Scientific.exists_text (Sign.ofNegative x.isNegative)
      defaultStyle.exponentDigits (s := x.shortest)
      (by rw [shortest, Ratio.digits_toScientific]; exact x.shortestDigits_pos)
      (by rw [shortest, Ratio.digits_toScientific]
          exact Ratio.coefficient_toScientific_lt x.shortestDigits_pos _)
    exact ⟨m, ht, hs, .inr he, hm⟩
  case isFalse hplain =>
    have hv := round_places_shortest hx (by omega) rfl
    generalize ((x.shortestDigits defaultStyle - 1 : ℕ) - x.shortest.exponent).toNat = p at hv ⊢
    obtain ⟨m, ht, hs, hfixed, hc⟩ :=
      Ratio.exists_fixed (Sign.ofNegative x.isNegative) p x.magnitude
    rw [← hc, ← hfixed.placeCount, ← DecimalNumeral.magnitude_of_exponent_eq hfixed.exponent] at hv
    rcases eq_or_ne p 0 with rfl | hp
    · obtain ⟨n, hnt, hns, hne, hnp, hnm⟩ :=
        DecimalNumeral.exists_zero_place hfixed.placeCount hfixed.exponent
      refine ⟨n, ?_, hns.trans hs, .inl ⟨hne, hnp⟩, hnm.trans hv⟩
      rw [hnt, ht, if_pos rfl, List.append_assoc]
    · refine ⟨m, ?_, hs, .inl ⟨hfixed.exponent, ?_⟩, hv⟩
      · rw [ht, if_neg hp, List.append_nil]
      · by_contra hn
        rw [Option.not_isSome_iff_eq_none] at hn
        exact hp (by rw [← hfixed.placeCount, DecimalNumeral.placeCount, hn]; rfl)

theorem plain_real (x : Binary64) : (Value.real x).plain = x.text := by
  rw [Value.plain, Value.render]

/-- The default text of a finite number is a numeral, in plain notation with a point or with an
exponent, that is rounded to the number and has its sign, also that of zero. So no other finite
number has the same text. -/
theorem plain_reads_back (hx : x.isFinite = true) :
    (∃ m : DecimalNumeral, m.text = (Value.real x).plain ∧
      (m.exponent = none ∧ m.places.isSome ∨ m.exponent.isSome) ∧ m.ReadsAs x) ∧
    ∀ y : Binary64, y.isFinite = true → (Value.real y).plain = (Value.real x).plain → y = x := by
  have reads {x : Binary64} (hx : x.isFinite = true) : ∃ m : DecimalNumeral,
      m.text = (Value.real x).plain ∧
        (m.exponent = none ∧ m.places.isSome ∨ m.exponent.isSome) ∧ m.ReadsAs x := by
    obtain ⟨m, ht, hs, hp, hm⟩ := exists_text hx
    exact ⟨m, by rw [ht, plain_real], hp, by rw [hs, Sign.isMinus_ofNegative],
      hm ▸ roundsTo_shortest hx⟩
  refine ⟨reads hx, fun y hy h => ?_⟩
  obtain ⟨m, hmt, -, hm⟩ := reads hx
  obtain ⟨n, hnt, -, hn⟩ := reads hy
  obtain rfl : n = m := DecimalNumeral.text_injective (by rw [hnt, hmt, h])
  exact hn.rounds.unique even_fractions_binary64 hm.rounds (hn.sign.symm.trans hm.sign)

/-- The negative zero keeps its sign, and of the sum of one tenth and two tenths seventeen digits are
written, which tell it from three tenths. -/
theorem plain_reads_back_two :
    let zero : Binary64 := ofSignBits binary64 true 0
    let sum : Binary64 := ofBits binary64 0x3fd3333333333334
    ((∃ m : DecimalNumeral, m.text = ("-0.0" : Text) ∧
        (m.exponent = none ∧ m.places.isSome ∨ m.exponent.isSome) ∧ m.ReadsAs zero) ∧
      ∀ y : Binary64, y.isFinite = true → (Value.real y).plain = ("-0.0" : Text) → y = zero) ∧
    (∃ m : DecimalNumeral, m.text = ("0.30000000000000004" : Text) ∧
        (m.exponent = none ∧ m.places.isSome ∨ m.exponent.isSome) ∧ m.ReadsAs sum) ∧
      ∀ y : Binary64, y.isFinite = true →
        (Value.real y).plain = ("0.30000000000000004" : Text) → y = sum := by
  intro zero sum
  have hzero : (Value.real zero).plain = ("-0.0" : Text) := by
    rw [plain_real]
    decide +kernel
  have hsum : (Value.real sum).plain = ("0.30000000000000004" : Text) := by
    rw [plain_real]
    decide +kernel
  have h₁ := plain_reads_back (x := zero) (by decide +kernel)
  have h₂ := plain_reads_back (x := sum) (by decide +kernel)
  rw [hzero] at h₁
  rw [hsum] at h₂
  exact ⟨h₁, h₂⟩

end Floating

end ScriptBase

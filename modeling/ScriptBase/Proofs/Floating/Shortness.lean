import ScriptBase.Proofs.Floating.ReadingBack

/-!
# How short default texts are

The default text is chosen by the numerals that are nearest to the number, one for each number of
digits. Another numeral with as many digits may be rounded to the number although the nearest one is
not: at a power of two, the gap before the number is half as wide as the gap behind it, so the
nearest numeral may lie too far before the number while one that is farther away lies near enough
behind it. Nowhere else can this happen. One digit more is always enough then, for two neighbouring
numerals are no farther apart than the wider gap, so that with one digit more the nearest numeral is
off by a twentieth of this gap at most.

## Main results

* `ScriptBase.Floating.shortestDigits_le_or`: how many digits numerals have that are rounded to a
  number.
* `ScriptBase.Floating.plain_almost_shortest`: default texts are shortest, but for one digit at
  powers of two.
* `ScriptBase.Floating.plain_not_shortest`: at a power of two there is a shorter numeral.
-/

namespace ScriptBase

namespace Floating

section Format

variable {f : FloatFormat} {x : Floating f} (hf : Even f.fractions) (hx : x.isFinite = true)

theorem isZero_eq_false_iff : x.isZero = false ↔ x.magnitude.num ≠ 0 := by
  have hd := Nat.div_add_mod x.magnitudeBits f.fractions
  rw [ne_eq, num_magnitude_eq_zero_iff, isZero, exponentField_eq, fraction_eq,
    Bool.and_eq_false_iff, beq_eq_false_iff_ne, beq_eq_false_iff_ne, ← not_and_or, not_iff_not]
  constructor
  · rintro ⟨h₁, h₂⟩
    rw [← hd, h₁, h₂, mul_zero]
  · intro h
    rw [h, Nat.zero_div, Nat.zero_mod]
    exact ⟨rfl, rfl⟩

include hf

/-- Zero is not rounded to other numbers. -/
theorem not_roundsTo_zero (hz : x.magnitude.num ≠ 0) : ¬ RoundsTo 0 x := by
  intro h
  have hn : x.magnitudeBits ≠ 0 := num_magnitude_eq_zero_iff.not.1 hz
  obtain ⟨-, hw⟩ := (roundsTo_iff_within hf le_rfl).1 h
  have hg := f.gapAt_pos (x.magnitudeBits - 1)
  have hl := FloatFormat.magnitudeAt_le_sub_gapAt (f := f) (Nat.pos_of_ne_zero hn)
  have hb := hw.below
  rw [f.magnitudeAt_zero] at hl
  linarith

/-- If a numeral with `k` digits behind a power of two is rounded to it, and the nearest one lies
before it, then the unit of `k` digits is no wider than the gap behind. -/
theorem unit_le_gapAt (hr : x.magnitude.num ≠ 0) {c k : ℕ} (hk : 0 < k) (hc : c < 10 ^ k) {z : ℤ}
    (h : RoundsTo (c * 10 ^ z) x) (hxp : x.magnitude.toRat < c * 10 ^ z)
    (hsx : (x.magnitude.toScientific k).value.toRat < x.magnitude.toRat) :
    x.magnitude.unit k ≤ f.gapAt x.magnitudeBits := by
  obtain ⟨hl, -⟩ := Ratio.decimalExponent_spec hr
  obtain ⟨units, hs⟩ := Ratio.toScientific_spec hr hk
  have hu := x.magnitude.unit_pos k
  have hnear := hs.abs_sub_le hr hk hc z
  have habove := ((roundsTo_iff_within hf (x.magnitude.toRat_nonneg.trans hxp.le)).1 h).2.above
  rw [← toRat_magnitude] at habove
  rw [abs_of_pos (sub_pos.2 hsx), abs_of_neg (sub_neg.2 hxp)] at hnear
  -- the two numerals are different numbers of units
  obtain ⟨j, hj⟩ := (Ratio.exists_mul_unit_or_lt x.magnitude hk hc z).resolve_right (by linarith)
  have hlt : units < j := by
    have h := hs.value ▸ hj ▸ hsx.trans hxp
    exact_mod_cast lt_of_mul_lt_mul_right h hu.le
  have hle : ((units + 1 : ℕ) : ℚ) * x.magnitude.unit k ≤ j * x.magnitude.unit k :=
    mul_le_mul_of_nonneg_right (Nat.cast_le.2 hlt) hu.le
  rw [hj] at hnear habove
  rw [hs.value] at hnear
  push_cast at hle
  linarith

include hx

/-- A numeral that is no farther away than one that is rounded to a number is rounded to it, too,
unless the number is a power of two, the farther numeral lies behind it, and the nearer one before
it, where the gap is narrower. -/
theorem sides_of_not_roundsTo {p q : ℚ} (hp : 0 ≤ p) (hq : 0 ≤ q) (h : RoundsTo p x)
    (hle : |x.magnitude.toRat - q| ≤ |x.magnitude.toRat - p|) (hn : ¬ RoundsTo q x) :
    f.Widens x.magnitudeBits ∧ x.magnitude.toRat < p ∧ q < x.magnitude.toRat := by
  obtain ⟨-, hw⟩ := (roundsTo_iff_within hf hp).1 h
  rw [toRat_magnitude, abs_sub_comm, abs_sub_comm _ p] at hle
  rw [toRat_magnitude]
  by_contra hside
  refine hn (roundsTo_of_within hf hx hq (hw.of_abs_le hle ?_))
  by_contra hne
  push Not at hne
  exact hside hne

/-- One digit more than those with which the unit is no wider than the gap behind a power of two is
enough: the nearest numeral is off by a twentieth of the gap. -/
theorem roundsTo_toScientific_succ (hr : x.magnitude.num ≠ 0) {k : ℕ} (hk : 0 < k)
    (hw : f.Widens x.magnitudeBits) (hu : x.magnitude.unit k ≤ f.gapAt x.magnitudeBits) :
    RoundsTo (x.magnitude.toScientific (k + 1)).value.toRat x := by
  obtain ⟨units, hs⟩ := Ratio.toScientific_spec hr k.succ_pos
  have herr := hs.two_mul_abs_sub_le
  have hgap := FloatFormat.gapAt_pred_of_widens hw
  have hsucc := x.magnitude.unit_succ hk
  have hg := f.gapAt_pos x.magnitudeBits
  refine roundsTo_of_within hf hx (Ratio.toRat_nonneg _) (FloatFormat.within_of_abs_lt ?_)
  rw [← toRat_magnitude, abs_sub_comm]
  linarith

/-- No numeral with fewer digits than the default text is chosen by is rounded to the number, unless
the number is a power of two, the numeral is greater, and it has only one digit less. -/
theorem shortestDigits_le_or (hr : x.magnitude.num ≠ 0) {c k : ℕ} (hk : 0 < k) (hc : c < 10 ^ k)
    {z : ℤ} (h : RoundsTo (c * 10 ^ z) x) :
    x.shortestDigits defaultStyle ≤ k ∨
      f.Widens x.magnitudeBits ∧ x.shortestDigits defaultStyle ≤ k + 1 ∧
        x.magnitude.toRat < c * 10 ^ z := by
  refine or_iff_not_imp_left.2 fun hlt => ?_
  have hp : (0 : ℚ) ≤ c * 10 ^ z :=
    mul_nonneg (Nat.cast_nonneg c) (zpow_nonneg Ratio.ten_pos.le z)
  obtain ⟨units, hs⟩ := Ratio.toScientific_spec hr hk
  obtain ⟨hw, hxp, hsx⟩ := sides_of_not_roundsTo hf hx hp (Ratio.toRat_nonneg _) h
    (hs.abs_sub_le hr hk hc z) (not_roundsTo_of_lt hf hx hk (not_le.1 hlt))
  refine ⟨hw, not_lt.1 fun hlt' => ?_, hxp⟩
  exact not_roundsTo_of_lt hf hx k.succ_pos hlt'
    (roundsTo_toScientific_succ hf hx hr hk hw (unit_le_gapAt hf hr hk hc h hxp hsx))

end Format

variable {x : Binary64}

/-- The default text of a number that is not zero reads as the number, and no numeral that does so
has fewer significant digits, unless the number is a power of two above the least gap. A numeral may
have one digit less then, and it is greater than the number. -/
theorem plain_almost_shortest (hx : x.isFinite = true) (hz : x.isZero = false) :
    ∃ m : DecimalNumeral, m.text = (Value.real x).plain ∧ m.ReadsAs x ∧
      ∀ n : DecimalNumeral, n.ReadsAs x →
        m.significant ≤ n.significant ∨
          x.fraction = 0 ∧ 1 < x.exponentField ∧ m.significant = n.significant + 1 ∧
            x.magnitude.toRat < n.magnitude := by
  have hr := isZero_eq_false_iff.1 hz
  obtain ⟨m, ht, hs, -, hm⟩ := exists_text hx
  refine ⟨m, by rw [ht, plain_real], ⟨by rw [hs, Sign.isMinus_ofNegative],
    hm ▸ roundsTo_shortest hx⟩, fun n hn => ?_⟩
  have hmd : m.significant ≤ x.shortestDigits defaultStyle := by
    exact DecimalNumeral.significant_le_iff.2 ⟨_,
      Ratio.coefficient_toScientific_lt x.shortestDigits_pos x.magnitude, _,
      hm.trans (Ratio.toRat_value_toScientific _ _)⟩
  obtain ⟨c, hc, z, hcz⟩ := DecimalNumeral.significant_le_iff.1 (le_refl n.significant)
  have hround := hn.rounds
  have hk : 0 < n.significant := by
    refine Nat.pos_of_ne_zero fun hk => not_roundsTo_zero even_fractions_binary64 hr ?_
    rw [hk, pow_zero, Nat.lt_one_iff] at hc
    rwa [hcz, hc, Nat.cast_zero, zero_mul] at hround
  rw [hcz] at hround ⊢
  rcases shortestDigits_le_or even_fractions_binary64 hx hr hk hc hround with h | ⟨hw, h, hlt⟩
  · exact .inl (hmd.trans h)
  · obtain ⟨h₀, h₁⟩ := widens_iff.1 hw
    refine or_iff_not_imp_left.2 fun hle => ⟨h₀, h₁, by omega, hlt⟩

/-- One tenth is written with one digit. -/
theorem plain_almost_shortest_tenth :
    ∃ m : DecimalNumeral, m.text = ("0.1" : Text) ∧
      m.ReadsAs (ofBits binary64 0x3fb999999999999a) ∧
      ∀ n : DecimalNumeral, n.ReadsAs (ofBits binary64 0x3fb999999999999a) →
        m.significant ≤ n.significant := by
  have ht : (Value.real (ofBits binary64 0x3fb999999999999a)).plain = ("0.1" : Text) := by
    rw [plain_real]
    decide +kernel
  have hw : (ofBits binary64 0x3fb999999999999a).fraction ≠ 0 := by decide +kernel
  obtain ⟨m, hm, hr, h⟩ := plain_almost_shortest (x := ofBits binary64 0x3fb999999999999a)
    (by decide +kernel) (by decide +kernel)
  exact ⟨m, hm.trans ht, hr, fun n hn => (h n hn).resolve_right fun h => hw h.1⟩

/-- The numeral with the given numbers in front of the point, behind it, and behind the minus sign
of the exponent. -/
def numeralOf (whole places exponent : ℕ) : DecimalNumeral where
  sign := .none
  whole := Scientific.paddedDigits 1 whole
  places := some (Scientific.paddedDigits 1 places)
  exponent := some (.minus, Scientific.paddedDigits 1 exponent)

/-- At `2 ^ -44` the nearest numeral with sixteen digits lies too far before the number, but the
next one behind the number is rounded to it. The default text has seventeen digits. -/
theorem plain_not_shortest :
    ¬ ∀ x : Binary64, x.isFinite = true → x.isZero = false →
      ∀ m : DecimalNumeral, m.text = (Value.real x).plain →
        ∀ n : DecimalNumeral, n.ReadsAs x → m.significant ≤ n.significant := by
  intro h
  have hx : (ofBits binary64 0x3d30000000000000).isFinite = true := by decide +kernel
  have hm : (numeralOf 5 6843418860808015 14).text =
      (Value.real (ofBits binary64 0x3d30000000000000)).plain := by
    rw [plain_real]
    decide +kernel
  have hn : (numeralOf 5 684341886080802 14).magnitude =
      ((Ratio.ofNat 5684341886080802).scale .ten (-29)).toRat := by
    have hc : (numeralOf 5 684341886080802 14).coefficient = 5684341886080802 := by
      decide +kernel
    have he : (numeralOf 5 684341886080802 14).power -
        (numeralOf 5 684341886080802 14).placeCount = -29 := by decide +kernel
    rw [DecimalNumeral.magnitude, hc, he, Ratio.toRat_scale_ten, Ratio.toRat_ofNat]
  have hr := (nearest_eq_iff even_fractions_binary64 hx).1 (by decide +kernel :
    nearest binary64 false ((Ratio.ofNat 5684341886080802).scale .ten (-29)) = _)
  rw [← hn] at hr
  have hreads : (numeralOf 5 684341886080802 14).ReadsAs (ofBits binary64 0x3d30000000000000) :=
    ⟨hr.1.symm, hr.2⟩
  have hle := h _ hx (by decide +kernel) _ hm _ hreads
  exact absurd hle (by decide +kernel)

end Floating

end ScriptBase

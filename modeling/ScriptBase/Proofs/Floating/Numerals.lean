import ScriptBase.Proofs.Floating.Scientific
import ScriptBase.Proofs.Numeral.Decimals

/-!
# The texts of quotients are numerals

Both notations write the digits of a whole number, with zeros in front if there are too few, and put
a point among them. Fixed notation has the whole number of units that the quotient is rounded to,
and scientific notation has the coefficient, with an exponent behind it.

## Main definitions

* `ScriptBase.Scientific.paddedDigits`: the digits of a number with zeros in front.
* `ScriptBase.DecimalNumeral.IsFixed`: the numeral of a number with a given number of places.

## Main results

* `ScriptBase.Ratio.exists_fixed`: fixed notation is the nearest numeral with the given places.
* `ScriptBase.Ratio.fixed_add`: places behind those that a number has are zeros.
* `ScriptBase.Scientific.exists_text`: scientific notation is a numeral of the same value.
-/

namespace ScriptBase

open Ascii (isDigit zero)

/-- The sign that is written in front of a number. -/
def Sign.ofNegative (negative : Bool) : Sign := if negative then .minus else .none

@[simp] theorem Sign.isMinus_ofNegative (negative : Bool) :
    (ofNegative negative).isMinus = negative := by
  cases negative <;> rfl

theorem Floating.signText_eq {f : FloatFormat} (x : Floating f) :
    x.signText = (Sign.ofNegative x.isNegative).text := by
  rw [signText, Sign.ofNegative]
  cases x.isNegative <;> rfl

/-- The text of a finite number with places. -/
theorem Floating.fixedText_of_isFinite {f : FloatFormat} {x : Floating f}
    (hx : x.isFinite = true) (places : ℕ) :
    x.fixedText places = x.signText ++ x.magnitude.fixed places := by
  have hf : (x.exponentField == f.topField) = false := by
    simpa [isFinite] using hx
  rw [fixedText, isNaN, isInfinite, hf, Bool.false_and, Bool.false_and]
  simp

/-! ### Digits with zeros in front -/

namespace Scientific

theorem isDigit_of_mem_padded {n value : ℕ} : ∀ b ∈ padded n value, isDigit b = true := by
  intro b hb
  rcases List.mem_append.1 hb with hb | hb
  · rw [List.eq_of_mem_replicate hb]
    rfl
  · exact Decimal.isDigit_of_mem_ofNat hb

/-- The digits of a number with zeros in front, `n` digits at least. -/
def paddedDigits (n value : ℕ) : Digits where
  text := padded n value
  ne_nil := List.append_ne_nil_of_right_ne_nil _ (Decimal.ofNat_ne_nil value)
  isDigit_of_mem := isDigit_of_mem_padded

@[simp] theorem text_paddedDigits (n value : ℕ) :
    (paddedDigits n value).text = padded n value := rfl

@[simp] theorem value_padded (n value : ℕ) : Decimal.value (padded n value) = value := by
  rw [padded, Decimal.value_replicate_zero_append, Decimal.value_ofNat]

theorem length_padded (n value : ℕ) :
    (padded n value).length = max n (Decimal.digitCount value) := by
  rw [padded, List.length_append, List.length_replicate, Decimal.digitCount]
  omega

end Scientific

/-- The numeral of a number starts with a zero only if it is that of zero. -/
theorem Decimal.eq_of_head?_ofNat {n : ℕ} (h : (ofNat n).head? = some zero) :
    ofNat n = [zero] := by
  obtain ⟨ds, hds⟩ := List.head?_eq_some_iff.1 h
  have hv : value ds = n := by rw [← value_zero_cons, ← hds, value_ofNat]
  have hlt : n < 10 ^ ds.length :=
    hv ▸ value_lt_pow fun b hb => isDigit_of_mem_ofNat (hds ▸ List.mem_cons_of_mem _ hb)
  rcases eq_or_ne n 0 with rfl | hn
  · rfl
  · have hc : digitCount n - 1 = ds.length := by rw [digitCount, hds]; rfl
    exact absurd (hc ▸ pow_digitCount_le hn) (not_le.2 hlt)

namespace Scientific

/-- A power of ten puts zeros behind the digits. -/
theorem padded_mul_pow {n : ℕ} (hn : 0 < n) (value k : ℕ) :
    padded (n + k) (value * 10 ^ k) = padded n value ++ List.replicate k zero := by
  refine Decimal.eq_of_value_eq isDigit_of_mem_padded ?_ ?_ ?_
  · intro b hb
    rcases List.mem_append.1 hb with hb | hb
    · exact isDigit_of_mem_padded b hb
    · rw [List.eq_of_mem_replicate hb]
      rfl
  · rw [length_padded, List.length_append, length_padded, List.length_replicate]
    rcases eq_or_ne value 0 with rfl | hv
    · have hc : Decimal.digitCount 0 = 1 := rfl
      rw [Nat.zero_mul, hc]
      omega
    · rw [Decimal.digitCount_mul_pow hv]
      omega
  · rw [value_padded, Decimal.value_append_replicate_zero, value_padded]

/-- Zeros in front of a number are not written if there are digits enough. -/
theorem take_padded_eq_zero {places value : ℕ} {ds : Text} (hd : padded (places + 1) value = ds)
    (h : ds.head? = some zero) : ds.take (ds.length - places) = [zero] := by
  obtain ⟨t, rfl⟩ := List.head?_eq_some_iff.1 h
  have hl := length_padded (places + 1) value
  rw [hd] at hl
  rcases le_or_gt (Decimal.digitCount value) (places + 1) with hc | hc
  · rw [max_eq_left hc] at hl
    rw [hl, Nat.add_sub_cancel_left]
    rfl
  · rw [padded, ← Decimal.digitCount, Nat.sub_eq_zero_of_le hc.le] at hd
    rw [List.replicate_zero, List.nil_append] at hd
    have he := Decimal.eq_of_head?_ofNat (hd ▸ rfl : (Decimal.ofNat value).head? = some zero)
    rw [Decimal.digitCount, he, List.length_singleton] at hc
    omega

end Scientific

namespace DecimalNumeral

/-- Digits with a point behind the first `w` of them are a numeral; there is no point if there are
no others. -/
theorem exists_pointed (sign : Sign) (ds : Digits) {w : ℕ} (hw : 0 < w)
    (exponent : Option (Sign × Digits)) :
    ∃ m : DecimalNumeral,
      m.text = sign.text ++ (Scientific.pointed w ds.text ++ exponentText exponent) ∧
        m.sign = sign ∧ m.whole.text = ds.text.take w ∧ m.exponent = exponent ∧
        m.digits = ds.text ∧ m.placeCount = ds.text.length - w := by
  rcases le_or_gt ds.text.length w with h | h
  · refine ⟨⟨sign, ds, none, exponent⟩, ?_, rfl, (List.take_of_length_le h).symm, rfl,
      List.append_nil _, (Nat.sub_eq_zero_of_le h).symm⟩
    rw [Scientific.pointed, if_pos h]
    rfl
  · have hn : ds.text.take w ≠ [] := by
      rw [ne_eq, List.take_eq_nil_iff]
      exact not_or.2 ⟨hw.ne', ds.ne_nil⟩
    have hn' : ds.text.drop w ≠ [] := fun hd => absurd (List.drop_eq_nil_iff.1 hd) (by omega)
    refine ⟨⟨sign, ⟨_, hn, fun b hb => ds.isDigit_of_mem b (List.mem_of_mem_take hb)⟩,
      some ⟨_, hn', fun b hb => ds.isDigit_of_mem b (List.mem_of_mem_drop hb)⟩, exponent⟩,
      ?_, rfl, rfl, rfl, List.take_append_drop _ _, List.length_drop⟩
    rw [Scientific.pointed, if_neg (not_le.2 h), List.append_assoc]
    rfl

/-- A numeral is that of a number `q` with a given number of places: it has no exponent, and as many
digits behind the point, with no point if these are none; no numeral with as many places is nearer
to `q`, and its last digit is even if another one is equally near; and no zero stands in front of
another digit before the point. -/
structure IsFixed (places : ℕ) (q : ℚ) (m : DecimalNumeral) : Prop where
  exponent : m.exponent = none
  placeCount : m.placeCount = places
  nearest : ∀ k : ℕ, |q - m.magnitude| ≤ |q - k / 10 ^ places|
  even : ∀ k : ℕ, k ≠ m.coefficient → |q - k / 10 ^ places| = |q - m.magnitude| →
    Even m.coefficient
  whole : m.whole.text.head? = some zero → m.whole.text = [zero]

/-- The value of a numeral without an exponent, by its places. -/
theorem magnitude_of_exponent_eq {m : DecimalNumeral} (h : m.exponent = none) :
    m.magnitude = m.coefficient / 10 ^ m.placeCount := by
  rw [magnitude, power, h, Option.elim_none, zero_sub, zpow_neg, zpow_natCast, div_eq_mul_inv]

/-- A numeral without a point and an exponent stands for the same number with a zero behind a
point. -/
theorem exists_zero_place {m : DecimalNumeral} (hp : m.placeCount = 0) (he : m.exponent = none) :
    ∃ n : DecimalNumeral, n.text = m.text ++ (".0" : Text) ∧ n.sign = m.sign ∧
      n.exponent = none ∧ n.places.isSome ∧ n.magnitude = m.magnitude := by
  obtain ⟨sign, whole, places, exponent⟩ := m
  obtain rfl : exponent = none := he
  obtain rfl : places = none := by
    cases places with
    | none => rfl
    | some ds => exact absurd (List.length_eq_zero_iff.1 hp) ds.ne_nil
  have hz : ∀ b ∈ [zero], isDigit b = true := List.forall_mem_singleton.2 rfl
  refine ⟨⟨sign, whole, some ⟨[zero], List.cons_ne_nil _ _, hz⟩, none⟩, ?_, rfl, rfl, rfl, ?_⟩
  · simp only [text, pointText, exponentText, List.append_nil, List.append_assoc]
    rfl
  · have hv : Decimal.value (whole.text ++ [zero]) = Decimal.value whole.text * 10 :=
      Decimal.value_append_replicate_zero whole.text 1
    simp only [magnitude, coefficient, digits, placeCount, power, Option.elim_some,
      Option.elim_none, hv, List.append_nil, List.length_singleton, List.length_nil]
    norm_num
    ring

end DecimalNumeral

/-! ### The two notations -/

namespace Ratio

/-- Fixed notation is the nearest numeral with the given number of places. -/
theorem exists_fixed (sign : Sign) (places : ℕ) (r : Ratio) :
    ∃ m : DecimalNumeral, m.text = sign.text ++ r.fixed places ∧ m.sign = sign ∧
      m.IsFixed places r.toRat ∧ m.coefficient = (r.scale .ten places).round := by
  have hl := Scientific.length_padded (places + 1) (r.scale .ten places).round
  have hr := (r.scale .ten places).roundsToNat_round
  rw [toRat_scale_ten, zpow_natCast, ← div_inv_eq_mul] at hr
  have hg : (0 : ℚ) < (10 ^ places)⁻¹ := inv_pos.2 (pow_pos ten_pos places)
  obtain ⟨m, ht, hs, hw, he, hd, hp⟩ := DecimalNumeral.exists_pointed sign
    (Scientific.paddedDigits (places + 1) (r.scale .ten places).round)
    (w := (Scientific.padded (places + 1) (r.scale .ten places).round).length - places)
    (by omega) none
  have hc : m.coefficient = (r.scale .ten places).round := by
    rw [DecimalNumeral.coefficient, hd, Scientific.text_paddedDigits, Scientific.value_padded]
  rw [Scientific.text_paddedDigits] at ht hw hp
  have hplaces : m.placeCount = places := by omega
  have hm : m.magnitude = m.coefficient * (10 ^ places)⁻¹ := by
    rw [DecimalNumeral.magnitude_of_exponent_eq he, hplaces, div_eq_mul_inv]
  refine ⟨m, ?_, hs, ⟨he, hplaces, fun k => ?_, fun k => ?_, fun hz => ?_⟩, hc⟩
  · rw [ht, fixed, DecimalNumeral.exponentText, List.append_nil]
  · rw [hm, hc, div_eq_mul_inv]
    exact hr.nearest_mul hg k
  · rw [hm, hc, div_eq_mul_inv]
    exact hr.even_mul hg
  · rw [hw, List.head?_take] at hz
    split at hz
    · cases hz
    · rw [hw]
      exact Scientific.take_padded_eq_zero rfl hz

/-- Where a number has no more places than `p`, more places are zeros. -/
theorem fixed_add {r : Ratio} {p v : ℕ} (hp : 0 < p) (hv : r.toRat * 10 ^ p = v) (k : ℕ) :
    r.fixed (p + k) = r.fixed p ++ List.replicate k zero := by
  have hr : (r.scale .ten p).round = v := by
    rw [round_eq_iff, toRat_scale_ten, zpow_natCast, hv]
    exact .natCast v
  have hrk : (r.scale .ten (p + k : ℕ)).round = v * 10 ^ k := by
    rw [round_eq_iff, toRat_scale_ten, zpow_natCast, pow_add, ← mul_assoc, hv]
    exact_mod_cast RoundsToNat.natCast (v * 10 ^ k)
  have hl := Scientific.length_padded (p + 1) v
  rw [fixed, fixed, hr, hrk, Nat.add_right_comm, Scientific.padded_mul_pow p.succ_pos]
  generalize Scientific.padded (p + 1) v = ds at hl ⊢
  have hw : (ds ++ List.replicate k zero).length - (p + k) = ds.length - p := by
    rw [List.length_append, List.length_replicate]
    omega
  have hlen : ds.length ≤ (ds ++ List.replicate k zero).length := by
    rw [List.length_append]
    omega
  rw [hw, Scientific.pointed, Scientific.pointed, if_neg (by omega), if_neg (by omega),
    List.take_append_of_le_length (by omega), List.drop_append_of_le_length (by omega),
    List.append_assoc, List.cons_append]

/-- The text has more bytes than places. -/
theorem lt_length_fixed (places : ℕ) (r : Ratio) : places < (r.fixed places).length := by
  have hl := Scientific.length_padded (places + 1) (r.scale .ten places).round
  rw [fixed]
  generalize Scientific.padded (places + 1) (r.scale .ten places).round = ds at hl ⊢
  rw [Scientific.pointed]
  split
  · omega
  · rw [List.length_append, List.length_cons, List.length_take, List.length_drop]
    omega

end Ratio

namespace Scientific

/-- The sign of an exponent is always written. -/
def exponentSign (s : Scientific) : Sign := if s.exponent < 0 then .minus else .plus

theorem text_exponentSign (s : Scientific) :
    s.exponentSign.text = [if s.exponent < 0 then Ascii.minus else Ascii.plus] := by
  unfold exponentSign
  split <;> rfl

theorem signed_exponentSign (s : Scientific) :
    Sign.signed s.exponentSign.isMinus s.exponent.natAbs = s.exponent := by
  unfold exponentSign
  split
  · exact (neg_eq_iff_eq_neg.2 (Int.ofNat_natAbs_of_nonpos (by omega)))
  · exact Int.natAbs_of_nonneg (by omega)

/-- Scientific notation is a numeral of the same value. -/
theorem exists_text (sign : Sign) (exponentDigits : ℕ) {s : Scientific} (hd : 0 < s.digits)
    (hc : s.coefficient < 10 ^ s.digits) :
    ∃ m : DecimalNumeral, m.text = sign.text ++ s.text exponentDigits ∧ m.sign = sign ∧
      m.exponent.isSome ∧ m.magnitude = s.value.toRat := by
  have hl : (padded s.digits s.coefficient).length = s.digits := by
    rw [length_padded, max_eq_left ((Decimal.digitCount_le_iff hd).2 hc)]
  obtain ⟨m, ht, hs, -, he, hdig, hp⟩ := DecimalNumeral.exists_pointed sign
    (paddedDigits s.digits s.coefficient) Nat.one_pos
    (some (s.exponentSign, paddedDigits exponentDigits s.exponent.natAbs))
  rw [text_paddedDigits] at ht hdig hp
  have hpow : m.power = s.exponent := by
    rw [DecimalNumeral.power, he, Option.elim_some, text_paddedDigits, value_padded,
      signed_exponentSign]
  refine ⟨m, ?_, hs, by rw [he]; rfl, ?_⟩
  · rw [ht, DecimalNumeral.exponentText, text_exponentSign, text_paddedDigits]
    rfl
  · rw [DecimalNumeral.magnitude, DecimalNumeral.coefficient, hpow, hdig, hp, value_padded, hl,
      value, Ratio.toRat_scale_ten, Ratio.toRat_ofNat]

end Scientific

end ScriptBase

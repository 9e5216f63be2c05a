import ScriptBase.Proofs.Numeral.Runs

/-!
# Decimal numerals

A decimal numeral is a sign or none, digits, possibly a point with digits behind it, and possibly an
exponent: the letter `e`, a sign or none, and digits. Each of these parts can be told from the one
behind it, so a text is that of one numeral at most. A numeral stands for the number of its digits
times a power of ten, exactly.

## Main definitions

* `ScriptBase.DecimalNumeral`: the numerals, with `text` for what they are written as.
* `ScriptBase.DecimalNumeral.magnitude`: the number that a numeral stands for, without its sign.
* `ScriptBase.DecimalNumeral.significant`: how many significant digits a numeral has.

## Main results

* `ScriptBase.DecimalNumeral.text_injective`: a text is that of one numeral at most.
* `ScriptBase.DecimalNumeral.significant_le_iff`: what can be written with no more than some
  significant digits.
-/

namespace ScriptBase

open Ascii (isDigit dot)

/-! ### Signs in front of digits -/

/-- A sign can be told from the digits behind it. -/
theorem Sign.append_cancel {s t : Sign} {d e : Digits} {r u : Text}
    (h : s.text ++ (d.text ++ r) = t.text ++ (e.text ++ u)) :
    s = t ∧ d.text ++ r = e.text ++ u := by
  have start (d : Digits) : ∃ b ds, d.text = b :: ds ∧ b ≠ Ascii.plus ∧ b ≠ Ascii.minus := by
    obtain ⟨b, ds, hd⟩ := List.exists_cons_of_ne_nil d.ne_nil
    have hb := d.isDigit_of_mem b (by simp [hd])
    refine ⟨b, ds, hd, ?_, ?_⟩ <;>
      · rintro rfl
        cases hb
  obtain ⟨b, ds, hd, hbp, hbm⟩ := start d
  obtain ⟨c, es, he, hcp, hcm⟩ := start e
  rw [hd, he, List.cons_append, List.cons_append] at h ⊢
  have hpm : Ascii.plus ≠ Ascii.minus := by decide
  cases s <;> cases t <;> simp only [text, List.nil_append, List.cons_append, List.cons.injEq] at h
  case none.none => exact ⟨rfl, by rw [h.1, h.2]⟩
  case plus.plus | minus.minus => exact ⟨rfl, by rw [h.2.1, h.2.2]⟩
  case none.plus => exact absurd h.1 hbp
  case none.minus => exact absurd h.1 hbm
  case plus.none => exact absurd h.1.symm hcp
  case minus.none => exact absurd h.1.symm hcm
  case plus.minus => exact absurd h.1 hpm
  case minus.plus => exact absurd h.1.symm hpm

/-! ### Numerals -/

/-- A decimal numeral. -/
@[ext] structure DecimalNumeral where
  sign : Sign
  /-- The digits in front of the point. -/
  whole : Digits
  /-- The digits behind the point, if there is a point. -/
  places : Option Digits
  /-- The sign and the digits of the exponent, if there is an exponent. -/
  exponent : Option (Sign × Digits)

namespace DecimalNumeral

/-- The point and the digits behind it. -/
def pointText : Option Digits → Text
  | none => []
  | some ds => dot :: ds.text

/-- The letter, the sign and the digits of an exponent. -/
def exponentText : Option (Sign × Digits) → Text
  | none => []
  | some (sign, ds) => 0x65 :: (sign.text ++ ds.text)

/-- What a numeral is written as. -/
def text (m : DecimalNumeral) : Text :=
  m.sign.text ++ (m.whole.text ++ (pointText m.places ++ exponentText m.exponent))

/-- All digits of a numeral but those of its exponent. -/
def digits (m : DecimalNumeral) : Text := m.whole.text ++ m.places.elim [] Digits.text

/-- The number of digits behind the point. -/
def placeCount (m : DecimalNumeral) : ℕ := (m.places.elim [] Digits.text).length

/-- The number of the digits without the point. -/
def coefficient (m : DecimalNumeral) : ℕ := Decimal.value m.digits

/-- The power of ten that the exponent stands for. -/
def power (m : DecimalNumeral) : ℤ :=
  m.exponent.elim 0 fun e => Sign.signed e.1.isMinus (Decimal.value e.2.text)

/-- The number that a numeral stands for, without its sign. -/
def magnitude (m : DecimalNumeral) : ℚ := m.coefficient * 10 ^ (m.power - m.placeCount)

/-- How many digits a numeral has if the zeros around them are not counted. -/
def significant (m : DecimalNumeral) : ℕ := (Decimal.significantDigits m.digits).length

theorem isDigit_of_mem_digits (m : DecimalNumeral) : ∀ b ∈ m.digits, isDigit b = true := by
  obtain ⟨sign, whole, places, exponent⟩ := m
  intro b hb
  rcases List.mem_append.1 hb with hb | hb
  · exact whole.isDigit_of_mem b hb
  · cases places with
    | none => cases hb
    | some ds => exact ds.isDigit_of_mem b hb

/-- Besides the places, a point and a digit in front of it are written. -/
theorem placeCount_lt_length_text {m : DecimalNumeral} (h : m.placeCount ≠ 0) :
    m.placeCount + 1 < m.text.length := by
  obtain ⟨sign, whole, places, exponent⟩ := m
  cases places with
  | none => exact absurd rfl h
  | some ds =>
    have hw := List.length_pos_iff.2 whole.ne_nil
    simp only [text, placeCount, pointText, Option.elim_some, List.length_append,
      List.length_cons]
    omega

/-! ### One text, one numeral -/

theorem noDigitFirst_exponentText (e : Option (Sign × Digits)) :
    NoDigitFirst (exponentText e) := by
  cases e with
  | none => exact noDigitFirst_nil
  | some e => exact noDigitFirst_cons rfl _

theorem noDigitFirst_pointText_append (p : Option Digits) (e : Option (Sign × Digits)) :
    NoDigitFirst (pointText p ++ exponentText e) := by
  cases p with
  | none => exact noDigitFirst_exponentText e
  | some ds => exact noDigitFirst_cons rfl _

theorem exponentText_injective : Function.Injective exponentText := by
  intro e e' h
  match e, e', h with
  | none, none, _ => rfl
  | none, some _, h => cases h
  | some _, none, h => cases h
  | some (s, d), some (t, e), h =>
    have h' : s.text ++ (d.text ++ []) = t.text ++ (e.text ++ []) := by
      simpa using (List.cons.inj h).2
    obtain ⟨rfl, hd⟩ := Sign.append_cancel h'
    rw [List.append_nil, List.append_nil] at hd
    rw [Digits.ext hd]

theorem pointText_append_cancel {p q : Option Digits} {e f : Option (Sign × Digits)}
    (h : pointText p ++ exponentText e = pointText q ++ exponentText f) : p = q ∧ e = f := by
  have letter {ds : Digits} {e f : Option (Sign × Digits)}
      (h : pointText none ++ exponentText e = pointText (some ds) ++ exponentText f) : False := by
    cases e with
    | none => cases h
    | some e => exact absurd (List.cons.inj h).1 (by decide)
  match p, q with
  | none, none => exact ⟨rfl, exponentText_injective h⟩
  | none, some _ => exact (letter h).elim
  | some _, none => exact (letter h.symm).elim
  | some d, some e =>
    obtain ⟨hd, he⟩ := Decimal.append_cancel d.isDigit_of_mem e.isDigit_of_mem
      (noDigitFirst_exponentText _) (noDigitFirst_exponentText _) (List.cons.inj h).2
    rw [Digits.ext hd]
    exact ⟨rfl, exponentText_injective he⟩

/-- Different numerals have different texts. -/
theorem text_injective : Function.Injective text := by
  intro m n h
  obtain ⟨hs, h⟩ := Sign.append_cancel h
  obtain ⟨hw, h⟩ := Decimal.append_cancel m.whole.isDigit_of_mem n.whole.isDigit_of_mem
    (noDigitFirst_pointText_append _ _) (noDigitFirst_pointText_append _ _) h
  obtain ⟨hp, he⟩ := pointText_append_cancel h
  exact DecimalNumeral.ext hs (Digits.ext hw) hp he

/-! ### Magnitudes -/

/-- A numeral has no more significant digits than `k` exactly if it stands for a whole number
smaller than the power `k` of ten, times some power of ten. -/
theorem significant_le_iff {m : DecimalNumeral} {k : ℕ} :
    m.significant ≤ k ↔ ∃ c : ℕ, c < 10 ^ k ∧ ∃ z : ℤ, m.magnitude = c * 10 ^ z := by
  have ten : (10 : ℚ) ≠ 0 := by norm_num
  rw [significant, Decimal.length_significantDigits_le_iff m.isDigit_of_mem_digits, magnitude,
    coefficient]
  refine exists_congr fun c => and_congr_right fun _ => ⟨?_, ?_⟩
  · rintro ⟨z, hz⟩
    exact ⟨z + (m.power - m.placeCount), by rw [hz, mul_assoc, zpow_add₀ ten]⟩
  · rintro ⟨z, hz⟩
    refine ⟨z - (m.power - m.placeCount), ?_⟩
    rw [zpow_sub₀ ten, ← mul_div_assoc, ← hz, mul_div_cancel_right₀ _ (zpow_ne_zero _ ten)]

end DecimalNumeral

end ScriptBase

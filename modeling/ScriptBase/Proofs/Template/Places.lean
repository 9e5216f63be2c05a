import ScriptBase.Proofs.Floating.Numerals
import ScriptBase.Proofs.Floating.Rounding
import ScriptBase.Proofs.Platform.Reference
import ScriptBase.Proofs.Template.Precision

/-!
# Numbers with places

A number is written with a given number of places as the numeral that is nearest to it. But no more
than 511 bytes of the numeral are written, and of one of more than 4095 bytes the platform may print
nothing. A finite number has no more than 1074 places, so more places than these are zeros, of which
none is written.

## Main results

* `ScriptBase.Conversion.realText_eq`: what is written of a finite number.
* `ScriptBase.Template.format_places`: the numeral with the places of a conversion, cut off.
* `ScriptBase.Template.format_places_cut`: a numeral that is cut off.
-/

namespace ScriptBase

open Ascii (isDigit)

/-- A finite number has no more places than the smallest numbers. -/
theorem Floating.exists_mul_pow_mostPlaces (x : Binary64) :
    ∃ v : ℕ, x.magnitude.toRat * 10 ^ Conversion.mostPlaces = v := by
  have hleast : binary64.leastPlace = -1074 := by decide +kernel
  obtain ⟨k, hk⟩ : ∃ k : ℕ, x.place = k - 1074 := ⟨x.exponentField - 1, by
    rw [place, hleast]
    ring⟩
  refine ⟨x.significand * 2 ^ k * 5 ^ Conversion.mostPlaces, ?_⟩
  have hten : (10 : ℚ) ^ Conversion.mostPlaces =
      2 ^ (1074 : ℤ) * 5 ^ Conversion.mostPlaces := by
    rw [show (10 : ℚ) = 2 * 5 by norm_num, mul_pow]
    rfl
  have hbase : ((Base.two.value : ℕ) : ℚ) = 2 := rfl
  rw [magnitude, Ratio.toRat_scale, Ratio.toRat_ofNat, hbase, hten, ← mul_assoc,
    mul_assoc (x.significand : ℚ), ← zpow_add₀ two_ne_zero, hk, sub_add_cancel, zpow_natCast]
  push_cast
  rfl

namespace Conversion

/-- What is written of a finite number that can be printed is the nearest numeral with the places of
the conversion, cut off at the greatest length. -/
theorem realText_eq [Platform] (c : Conversion) {x : Binary64} (hx : x.isFinite = true) :
    c.realText x = (Platform.unprinted? (c.places.getD defaultPlaces) x).getD
      ((x.signText ++ x.magnitude.fixed (c.places.getD defaultPlaces)).take longestReal) := by
  rw [realText]
  generalize c.places.getD defaultPlaces = p
  rcases Platform.unprinted? p x with _ | s
  case some => rfl
  rw [Option.getD_none]
  dsimp only
  rw [Floating.fixedText_of_isFinite hx]
  rcases le_or_gt p mostPlaces with hp | hp
  · rw [min_eq_left hp]
  · -- the places that are left out are zeros behind all that is written
    obtain ⟨v, hv⟩ := x.exists_mul_pow_mostPlaces
    obtain ⟨k, rfl⟩ := Nat.exists_eq_add_of_lt hp
    have hlt := Ratio.lt_length_fixed mostPlaces x.magnitude
    have hlong : longestReal ≤ (x.signText ++ x.magnitude.fixed mostPlaces).length := by
      have h : longestReal ≤ mostPlaces := by decide
      rw [List.length_append]
      omega
    rw [min_eq_right hp.le, add_assoc, Ratio.fixed_add (by decide) hv, ← List.append_assoc,
      List.take_append_of_le_length hlong]

end Conversion

namespace Template

variable {x : Binary64} {digits : Text}

theorem format_precise_real [Platform] (hd : ∀ b ∈ digits, isDigit b = true) (x : Binary64) :
    format (precise digits 0x66) [.real x] = .ok ((preciseConversion digits 0x66).realText x) := by
  rw [format_precise hd rfl, Conversion.apply]
  change Except.ok (Conversion.pad _ true _) = _
  rw [pad_preciseConversion]

/-- A finite number is written with a precision as the nearest numeral with as many places, ties to
even, with the sign of the number. Of the numeral no more than 511 bytes are written, and the number
of places is that of the digits only below `2 ^ 31`. What stands in the buffer when the numeral
cannot be printed is written instead; a numeral of no more than 4095 bytes can be printed. -/
theorem format_places [Platform] [LawfulPlatform] (hx : x.isFinite = true)
    (hd : ∀ b ∈ digits, isDigit b = true) :
    let places := (narrowed (Decimal.value digits)).getD Conversion.defaultPlaces
    ∃ m : DecimalNumeral,
      m.sign = Sign.ofNegative x.isNegative ∧ m.IsFixed places x.magnitude.toRat ∧
        format (precise digits 0x66) [.real x] =
          .ok ((Platform.unprinted? places x).getD (m.text.take Conversion.longestReal)) ∧
        (m.text.length ≤ longestPrintable → Platform.unprinted? places x = none) := by
  intro places
  obtain ⟨m, ht, hs, hm, -⟩ :=
    Ratio.exists_fixed (Sign.ofNegative x.isNegative) places x.magnitude
  have hx' : x.fixedText places = m.text := by
    rw [Floating.fixedText_of_isFinite hx, ht, Floating.signText_eq]
  refine ⟨m, hs, hm, ?_, fun hl => LawfulPlatform.unprinted?_eq_none places x (by rwa [hx'])⟩
  rw [format_precise_real hd, Conversion.realText_eq _ hx, places_preciseConversion, ht,
    Floating.signText_eq]

open scoped ScriptBase.ReferencePlatform

/-- One eighth is halfway between two numerals with two places, of which the even one is written. -/
theorem format_places_eighth :
    ∃ m : DecimalNumeral, m.sign = .none ∧ m.IsFixed 2 (1 / 8) ∧
      m.text.take 511 = ("0.12" : Text) := by
  have hp : (narrowed (Decimal.value "2")).getD Conversion.defaultPlaces = 2 := by
    rw [narrowed_of_lt (by decide)]
    rfl
  have hq : (Floating.ofBits binary64 0x3fc0000000000000).magnitude.toRat = 1 / 8 := by
    decide +kernel
  have ht : format (precise "2" 0x66) [.real (.ofBits binary64 0x3fc0000000000000)] =
      .ok "0.12" := by decide +kernel
  have hu : Platform.unprinted? 2 (Floating.ofBits binary64 0x3fc0000000000000) = none := by
    decide +kernel
  obtain ⟨m, hs, hm, h, -⟩ := format_places (x := .ofBits binary64 0x3fc0000000000000)
    (by decide +kernel)
    (List.all_eq_true.1 (by decide) : ∀ b ∈ ("2" : Text), isDigit b = true)
  rw [hp, hq] at hm
  rw [ht, hp, hu] at h
  exact ⟨m, hs, hm, (Except.ok.inj h).symm⟩

/-- With 510 places, one is written with 509. -/
theorem format_places_cut :
    ¬ ∀ x : Binary64, x.isFinite = true →
      ∀ digits : Text, digits ≠ [] → (∀ b ∈ digits, isDigit b = true) →
        ∃ m : DecimalNumeral,
          m.sign = Sign.ofNegative x.isNegative ∧
            m.IsFixed (Decimal.value digits) x.magnitude.toRat ∧
            format (precise digits 0x66) [.real x] = .ok m.text := by
  intro h
  have hd : ∀ b ∈ ("510" : Text), isDigit b = true := List.all_eq_true.1 (by decide)
  obtain ⟨m, -, hm, ht⟩ := h (.ofBits binary64 0x3ff0000000000000) (by decide +kernel) "510"
    (by decide) hd
  rw [format_precise_real hd] at ht
  have hl : ((preciseConversion "510" 0x66).realText
      (.ofBits binary64 0x3ff0000000000000)).length = 511 := by decide +kernel
  have hlen : m.text.length = 511 := by rw [← Except.ok.inj ht, hl]
  have hp : m.placeCount = 510 := hm.placeCount
  have hlt := DecimalNumeral.placeCount_lt_length_text (m := m) (by omega)
  omega

end Template

end ScriptBase

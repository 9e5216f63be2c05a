import Mathlib.Algebra.Order.Field.Power
import Mathlib.Algebra.Order.Ring.Rat
import Mathlib.Data.List.TakeWhile
import Mathlib.Tactic.NormNum
import Mathlib.Tactic.Ring
import ScriptBase.Proofs.Numeral.Spelling

/-!
# Runs of digits

A run of digits ends where the digits end, so it can be told from what stands behind it. Its value
is that of its digits one by one, and zeros in front of it count for nothing. What is left of it
without the zeros around it are its significant digits, and their number is the least one with which
the value can be written at all: as a whole number with so many digits, times a power of ten.

## Main definitions

* `ScriptBase.NoDigitFirst`: a text in front of which a run of digits ends.
* `ScriptBase.Digits`: a run of one digit or more.
* `ScriptBase.Decimal.significantDigits`: a run without the zeros around it.

## Main results

* `ScriptBase.Decimal.append_cancel`: a run can be told from what stands behind it.
* `ScriptBase.Decimal.digitCount_le_iff`: the numbers with no more than some digits.
* `ScriptBase.Decimal.length_significantDigits_le_iff`: the numbers with no more than some
  significant digits.
-/

namespace ScriptBase

open Ascii (isDigit digitValue zero)

/-- The list without the elements at its end that satisfy `p`. -/
def Text.dropWhileEnd {α : Type} (p : α → Bool) (xs : List α) : List α :=
  (xs.reverse.dropWhile p).reverse

/-- No digit stands at the start of a text. -/
def NoDigitFirst (s : Text) : Prop := ∀ b ∈ s.head?, isDigit b = false

theorem noDigitFirst_nil : NoDigitFirst [] := fun _ h => nomatch h

theorem noDigitFirst_cons {b : UInt8} (h : isDigit b = false) (s : Text) :
    NoDigitFirst (b :: s) := by
  rintro _ ⟨⟩
  exact h

/-- One decimal digit or more. -/
@[ext] structure Digits where
  text : Text
  ne_nil : text ≠ []
  isDigit_of_mem : ∀ b ∈ text, isDigit b = true

namespace Decimal

variable {b : UInt8} {ds es r s : Text} {k n : ℕ}

/-- A run of digits can be told from what stands behind it. -/
theorem append_cancel (hds : ∀ b ∈ ds, isDigit b = true) (hes : ∀ b ∈ es, isDigit b = true)
    (hr : NoDigitFirst r) (hs : NoDigitFirst s) (h : ds ++ r = es ++ s) : ds = es ∧ r = s := by
  have run {ds r : Text} (hds : ∀ b ∈ ds, isDigit b = true) (hr : NoDigitFirst r) :
      (ds ++ r).takeWhile isDigit = ds := by
    rw [List.takeWhile_append_of_pos hds]
    cases r with
    | nil => simp
    | cons b r => simp [hr b rfl]
  obtain rfl : ds = es := by rw [← run hds hr, h, run hes hs]
  exact ⟨rfl, List.append_cancel_left h⟩

/-! ### Values -/

theorem valueFrom_eq (n : ℕ) (ds : Text) : valueFrom n ds = n * 10 ^ ds.length + value ds := by
  induction ds generalizing n with
  | nil => simp [value]
  | cons b ds ih =>
    rw [value, valueFrom_cons, valueFrom_cons, ih, ih (0 * 10 + digitValue b), List.length_cons]
    ring

theorem value_append (ds es : Text) : value (ds ++ es) = value ds * 10 ^ es.length + value es := by
  rw [value, valueFrom_append, valueFrom_eq, ← value]

theorem value_cons (b : UInt8) (ds : Text) :
    value (b :: ds) = digitValue b * 10 ^ ds.length + value ds := by
  rw [value, valueFrom_cons, valueFrom_eq, Nat.zero_mul, Nat.zero_add]

@[simp] theorem value_zero_cons (ds : Text) : value (zero :: ds) = value ds := by
  rw [value_cons, show digitValue zero = 0 from rfl, Nat.zero_mul, Nat.zero_add]

@[simp] theorem value_replicate_zero_append (k : ℕ) (ds : Text) :
    value (List.replicate k zero ++ ds) = value ds := by
  induction k with
  | zero => rfl
  | succ k ih => rw [List.replicate_succ, List.cons_append, value_zero_cons, ih]

/-- Zeros behind a run are powers of ten. -/
theorem value_append_replicate_zero (ds : Text) (k : ℕ) :
    value (ds ++ List.replicate k zero) = value ds * 10 ^ k := by
  have h := value_replicate_zero_append k []
  rw [List.append_nil] at h
  rw [value_append, h, List.length_replicate]
  rfl

theorem value_lt_pow (hds : ∀ b ∈ ds, isDigit b = true) : value ds < 10 ^ ds.length := by
  induction ds with
  | nil => decide
  | cons b ds ih =>
    obtain ⟨hb, hds⟩ := List.forall_mem_cons.1 hds
    have hv := ih hds
    have hm : digitValue b * 10 ^ ds.length ≤ 9 * 10 ^ ds.length :=
      Nat.mul_le_mul_right _ (Ascii.digitValue_le hb)
    rw [value_cons, List.length_cons, pow_succ]
    omega

theorem digitValue_injective : Function.Injective digitValue := by
  intro b c h
  have hs : b - 0x30 = c - 0x30 := UInt8.toNat_inj.1 h
  rw [← UInt8.sub_add_cancel b 0x30, hs, UInt8.sub_add_cancel]

/-- A digit that is not zero has a value. -/
theorem digitValue_pos (hb : isDigit b = true) (h : b ≠ zero) : 0 < digitValue b := by
  simp only [isDigit, Bool.and_eq_true, decide_eq_true_eq] at hb
  have hne : b.toNat ≠ (0x30 : UInt8).toNat := fun he => h (UInt8.toNat_inj.1 he)
  have hle := UInt8.le_iff_toNat_le.1 hb.1
  rw [digitValue, UInt8.toNat_sub_of_le _ _ hb.1]
  omega

/-- A run that does not start with a zero has as many digits as its value. -/
theorem pow_le_value (hds : ∀ b ∈ ds, isDigit b = true) (hn : ds ≠ [])
    (hz : ds.head? ≠ some zero) : 10 ^ (ds.length - 1) ≤ value ds := by
  cases ds with
  | nil => exact absurd rfl hn
  | cons b ds =>
    have hb := digitValue_pos (hds b List.mem_cons_self) (by simpa using hz)
    rw [value_cons, List.length_cons, Nat.add_sub_cancel]
    exact le_add_right (Nat.le_mul_of_pos_left _ hb)

/-- A run that does not end in a zero is not ten times a number. -/
theorem not_dvd_value (hds : ∀ b ∈ ds, isDigit b = true) (hn : ds ≠ [])
    (hz : ds.getLast? ≠ some zero) : ¬ 10 ∣ value ds := by
  obtain ⟨ds, b, rfl⟩ := ds.eq_nil_or_concat.resolve_left hn
  have hd := hds b (by simp)
  have hb := digitValue_pos hd (by simpa using hz)
  have hb' := Ascii.digitValue_le hd
  have hv : value [b] = digitValue b := by simp [value]
  rw [List.concat_eq_append, value_append, hv, List.length_singleton]
  omega

/-- As many digits with the same value are the same digits. -/
theorem eq_of_value_eq (hds : ∀ b ∈ ds, isDigit b = true) (hes : ∀ b ∈ es, isDigit b = true)
    (hl : ds.length = es.length) (hv : value ds = value es) : ds = es := by
  induction ds generalizing es with
  | nil => exact (List.length_eq_zero_iff.1 hl.symm).symm
  | cons b ds ih =>
    cases es with
    | nil => cases hl
    | cons c es =>
      have hds := (List.forall_mem_cons.1 hds).2
      have hes := (List.forall_mem_cons.1 hes).2
      have hl : ds.length = es.length := Nat.succ.inj hl
      have hlt := value_lt_pow hds
      have hlt' := value_lt_pow hes
      rw [value_cons, value_cons, hl] at hv
      rw [hl] at hlt
      have hp : 0 < 10 ^ es.length := Nat.pow_pos (by decide)
      have split (d : ℕ) {v : ℕ} (h : v < 10 ^ es.length) :
          (d * 10 ^ es.length + v) / 10 ^ es.length = d ∧
            (d * 10 ^ es.length + v) % 10 ^ es.length = v :=
        (Nat.div_mod_unique hp).2 ⟨by ring, h⟩
      obtain ⟨hd, hr⟩ := split (digitValue b) hlt
      obtain ⟨hd', hr'⟩ := split (digitValue c) hlt'
      rw [hv] at hd hr
      rw [digitValue_injective (hd.symm.trans hd'), ih hds hes hl (hr.symm.trans hr')]

/-! ### Numerals without zeros in front -/

theorem digitCount_pos (n : ℕ) : 0 < digitCount n := List.length_pos_iff.2 (ofNat_ne_nil n)

/-- A number has no more digits than `k` if it is smaller than the power `k` of ten. -/
theorem digitCount_le_iff (hk : 0 < k) : digitCount n ≤ k ↔ n < 10 ^ k := by
  rw [digitCount, ofNat, List.length_map]
  exact Nat.length_toDigits_le_iff (by decide) hk

theorem lt_pow_digitCount (n : ℕ) : n < 10 ^ digitCount n :=
  (digitCount_le_iff (digitCount_pos n)).1 le_rfl

theorem pow_digitCount_le (hn : n ≠ 0) : 10 ^ (digitCount n - 1) ≤ n := by
  rcases Nat.eq_or_lt_of_le (digitCount_pos n) with h | h
  · rw [← h]
    exact Nat.one_le_iff_ne_zero.2 hn
  · by_contra hlt
    have := (digitCount_le_iff (by omega)).2 (not_le.1 hlt)
    omega

/-- A power of ten puts zeros behind a numeral. -/
theorem digitCount_mul_pow (hn : n ≠ 0) (k : ℕ) : digitCount (n * 10 ^ k) = digitCount n + k := by
  have hp : 0 < 10 ^ k := Nat.pow_pos (by decide)
  have hc := digitCount_pos n
  refine le_antisymm ?_ ?_
  · rw [digitCount_le_iff (by omega), pow_add]
    exact Nat.mul_lt_mul_of_pos_right (lt_pow_digitCount n) hp
  · have hle := (Nat.mul_le_mul_right (10 ^ k) (pow_digitCount_le hn)).trans_lt
      (lt_pow_digitCount (n * 10 ^ k))
    rw [← pow_add] at hle
    have := (Nat.pow_lt_pow_iff_right (by decide)).1 hle
    omega

/-! ### Significant digits -/

/-- A run of digits without the zeros that it starts or ends with. -/
def significantDigits (ds : Text) : Text :=
  Text.dropWhileEnd (· == zero) (ds.dropWhile (· == zero))

theorem dropWhile_zero (ds : Text) :
    ∃ k, ds = List.replicate k zero ++ ds.dropWhile (· == zero) ∧
      (ds.dropWhile (· == zero)).head? ≠ some zero := by
  refine ⟨(ds.takeWhile (· == zero)).length, ?_, fun h => ?_⟩
  · have hz : ds.takeWhile (· == zero) = List.replicate (ds.takeWhile (· == zero)).length zero :=
      List.eq_replicate_iff.2 ⟨rfl, fun b hb => by simpa using List.mem_takeWhile_imp hb⟩
    rw [← hz, List.takeWhile_append_dropWhile]
  · have hd := List.head?_dropWhile_not (· == zero) ds
    rw [h] at hd
    simp at hd

/-- A run of digits is its significant digits between zeros. -/
theorem exists_significantDigits (ds : Text) :
    ∃ front back, ds = List.replicate front zero ++
        (significantDigits ds ++ List.replicate back zero) ∧
      (significantDigits ds).head? ≠ some zero ∧ (significantDigits ds).getLast? ≠ some zero := by
  obtain ⟨front, hf, hh⟩ := dropWhile_zero ds
  obtain ⟨back, hb, hl⟩ := dropWhile_zero (ds.dropWhile (· == zero)).reverse
  have hs : ds.dropWhile (· == zero) = significantDigits ds ++ List.replicate back zero := by
    rw [significantDigits, Text.dropWhileEnd, ← List.reverse_inj, List.reverse_append,
      List.reverse_reverse, List.reverse_replicate]
    exact hb
  refine ⟨front, back, by rwa [← hs], ?_, ?_⟩
  · intro h
    obtain ⟨t, ht⟩ := List.head?_eq_some_iff.1 h
    rw [hs, ht] at hh
    exact hh rfl
  · rwa [significantDigits, Text.dropWhileEnd, List.getLast?_reverse]

/-- A run of digits has no more significant digits than `k` exactly if its value is a whole number
smaller than the power `k` of ten, times some power of ten. -/
theorem length_significantDigits_le_iff (hds : ∀ b ∈ ds, isDigit b = true) :
    (significantDigits ds).length ≤ k ↔
      ∃ c : ℕ, c < 10 ^ k ∧ ∃ z : ℤ, (value ds : ℚ) = c * 10 ^ z := by
  have ten : (10 : ℚ) ≠ 0 := by norm_num
  obtain ⟨front, back, he, hh, hl⟩ := exists_significantDigits ds
  generalize significantDigits ds = core at he hh hl ⊢
  have hcore : ∀ b ∈ core, isDigit b = true := fun b hb => hds b (by rw [he]; simp [hb])
  have hv : value ds = value core * 10 ^ back := by
    rw [he, value_replicate_zero_append, value_append_replicate_zero]
  constructor
  · intro hk
    refine ⟨value core, (value_lt_pow hcore).trans_le (Nat.pow_le_pow_right (by decide) hk),
      back, ?_⟩
    rw [hv, zpow_natCast]
    push_cast
    rfl
  · rintro ⟨c, hc, z, hz⟩
    rcases eq_or_ne core [] with rfl | hn
    · exact Nat.zero_le k
    have hp := pow_le_value hcore hn hh
    rw [hv, Nat.cast_mul, Nat.cast_pow, Nat.cast_ofNat, ← zpow_natCast] at hz
    rcases le_or_gt z back with hzb | hzb
    · -- the whole number holds the significant digits
      obtain ⟨j, hj⟩ := Int.le.dest hzb
      have hcv : c = value core * 10 ^ j := by
        rw [← hj, zpow_add₀ ten, mul_comm ((10 : ℚ) ^ z), ← mul_assoc] at hz
        have := mul_right_cancel₀ (zpow_ne_zero z ten) hz
        rw [zpow_natCast] at this
        exact_mod_cast this.symm
      have hlt : 10 ^ (core.length - 1) < 10 ^ k :=
        (hp.trans (hcv ▸ Nat.le_mul_of_pos_right _ (Nat.pow_pos (by decide)))).trans_lt hc
      have := (Nat.pow_lt_pow_iff_right (by decide)).1 hlt
      have := List.length_pos_iff.2 hn
      omega
    · -- otherwise the last significant digit would be a zero
      obtain ⟨j, hj⟩ := Int.le.dest hzb
      refine absurd ?_ (not_dvd_value hcore hn hl)
      refine ⟨c * 10 ^ j, ?_⟩
      have hz' : z = (j + 1 : ℕ) + (back : ℤ) := by push_cast; omega
      rw [hz', zpow_add₀ ten, ← mul_assoc] at hz
      have := mul_right_cancel₀ (zpow_ne_zero _ ten) hz
      rw [zpow_natCast] at this
      have : value core = c * 10 ^ (j + 1) := by exact_mod_cast this
      rw [this]
      ring

end Decimal

end ScriptBase

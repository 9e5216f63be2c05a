import ScriptBase.Proofs.Numeral.Spelling

/-!
# The limit for runs of digits

Before the reader of digits takes a digit, it subtracts the digit from the limit and compares the
number so far with a tenth of the difference. If the limit is nine or more, no digit is greater than
it, nothing wraps around, and exactly the numbers up to the limit are read. Below nine, the
difference for a digit that is greater than the limit wraps around to a number that is far too
large. Such a digit is taken behind any number with which it has 64 bits, so that numbers past the
limit are read. Whatever is read, though, is the decimal value: the number itself never wraps around.

## Main definitions

* `ScriptBase.DigitsExceed`: the digits of a number behind the first one are greater than a limit.
* `ScriptBase.Admits`: the numbers that are read with a limit.

## Main results

* `ScriptBase.le_tenth_iff_admits`: which digits are taken.
* `ScriptBase.readDigitsFrom_append`: the reader arrives at a digit with the number before it.
* `ScriptBase.readDigits_accepts_iff`: which texts are read, what they are read as, what is computed
  on the way, and what the caller is told.
* `ScriptBase.readDigits_passes_limit`: a number past the limit is read.
-/

namespace ScriptBase

open Ascii (isDigit digitValue)

/-! ### Numbers digit by digit -/

/-- All digits of a number but the first one are greater than `limit`. -/
def DigitsExceed (limit n : Nat) : Prop := ∀ k, 10 ^ (k + 1) ≤ n → limit < n / 10 ^ k % 10

section Numbers

variable {limit n d : Nat}

theorem digitsExceed_of_lt_ten (h : n < 10) : DigitsExceed limit n := by
  intro k hk
  have := Nat.pow_le_pow_right (n := 10) (by decide) (Nat.le_add_left 1 k)
  omega

/-- A digit behind a number is its last one, and the first one if the number is zero. -/
theorem digitsExceed_withDigit_iff (hd : d ≤ 9) :
    DigitsExceed limit (n * 10 + d) ↔ DigitsExceed limit n ∧ (n ≠ 0 → limit < d) := by
  have hten : (n * 10 + d) / 10 = n := by omega
  have hshift (k : Nat) : (n * 10 + d) / 10 ^ (k + 1) = n / 10 ^ k := by
    rw [Nat.pow_succ', ← Nat.div_div_eq_div_mul, hten]
  constructor
  · intro h
    refine ⟨fun k hk => ?_, fun hn => ?_⟩
    · rw [← hshift]
      exact h (k + 1) (by rw [Nat.pow_succ]; omega)
    · have := h 0 (by omega)
      omega
  · rintro ⟨h, hlast⟩ (_ | k) hk
    · have := hlast (by omega)
      omega
    · rw [hshift]
      exact h k (by rw [Nat.pow_succ] at hk; omega)

/-- There is a zero among the digits of the number with which a digit could make 64 bits overflow. -/
theorem not_digitsExceed : ¬ DigitsExceed limit 1844674407370955161 := by
  intro h
  exact absurd (h 6 (by decide)) (Nat.not_lt_zero limit)

end Numbers

/-- The numbers that are read with a limit: those up to it, unless it is below nine. -/
def Admits (limit n : Nat) : Prop :=
  if 9 ≤ limit then n ≤ limit else n < 2 ^ 64 ∧ DigitsExceed limit n

theorem admits_zero (limit : Nat) : Admits limit 0 := by
  unfold Admits
  split
  · exact Nat.zero_le _
  · exact ⟨by decide, digitsExceed_of_lt_ten (by decide)⟩

section Reading

variable {limit value : UInt64} {d n : Nat}

theorem Admits.lt (h : Admits limit.toNat n) : n < 2 ^ 64 := by
  unfold Admits at h
  split at h
  · exact Nat.lt_of_le_of_lt h limit.toNat_lt
  · exact h.1

/-- A number that is read stays one without its last digit. -/
theorem Admits.of_withDigit {limit : Nat} (hd : d ≤ 9) (h : Admits limit (n * 10 + d)) :
    Admits limit n := by
  unfold Admits at h ⊢
  split at h
  · next hl =>
    rw [if_pos hl]
    omega
  · next hl =>
    rw [if_neg hl]
    exact ⟨by omega, ((digitsExceed_withDigit_iff hd).1 h.2).1⟩

/-- What the limit leaves beside a digit wraps around exactly if the digit is greater. -/
theorem toNat_sub_digit (limit : UInt64) (hd : d ≤ 9) :
    (limit - UInt64.ofNat d).toNat + d = limit.toNat + if limit.toNat < d then 2 ^ 64 else 0 := by
  have hl := limit.toNat_lt
  rw [UInt64.toNat_sub, toNat_ofNat_digit hd]
  split <;> omega

/-- A digit is taken exactly if the number with it is one that is read. -/
theorem le_tenth_iff_admits (hd : d ≤ 9) (hv : Admits limit.toNat value.toNat) :
    value ≤ (limit - UInt64.ofNat d) / 10 ↔ Admits limit.toNat (value.toNat * 10 + d) := by
  have h10 : (10 : UInt64).toNat = 10 := rfl
  have hs := toNat_sub_digit limit hd
  rw [UInt64.le_iff_toNat_le, UInt64.toNat_div, h10]
  unfold Admits at hv ⊢
  split at hv
  · next hl =>
    rw [if_pos hl]
    rw [if_neg (by omega)] at hs
    omega
  · next hl =>
    obtain ⟨-, hx⟩ := hv
    rw [if_neg hl, digitsExceed_withDigit_iff hd]
    by_cases hw : limit.toNat < d
    · -- the wrapped difference lets everything pass that has 64 bits, and a little more
      have hne : value.toNat ≠ 1844674407370955161 := fun h => not_digitsExceed (h ▸ hx)
      rw [if_pos hw] at hs
      exact ⟨fun h => ⟨by omega, hx, fun _ => hw⟩, fun h => by omega⟩
    · rw [if_neg hw] at hs
      refine ⟨fun h => ⟨by omega, hx, fun hz => ?_⟩, fun ⟨_, _, hz⟩ => ?_⟩
      · omega
      · by_contra
        exact hw (hz (by omega))

/-- A number that is read is computed without wrapping around. -/
theorem toNat_withDigit_of_admits (hd : d ≤ 9) (h : Admits limit.toNat (value.toNat * 10 + d)) :
    (value * 10 + UInt64.ofNat d).toNat = value.toNat * 10 + d := by
  have hlt := h.lt
  have h10 : (10 : UInt64).toNat = 10 := rfl
  rw [UInt64.toNat_add, UInt64.toNat_mul, toNat_ofNat_digit hd, h10]
  omega

end Reading

/-! ### Runs of digits -/

section Runs

variable {limit value v : UInt64} {b : UInt8} {front s : Text}

theorem readDigitsFrom_of_digit (hb : isDigit b = true) (limit value : UInt64) (s : Text) :
    readDigitsFrom limit value (b :: s) =
      if value ≤ (limit - UInt64.ofNat (digitValue b)) / 10 then
        readDigitsFrom limit (value * 10 + UInt64.ofNat (digitValue b)) s
      else ⟨value, some .overflow⟩ := by
  rw [readDigitsFrom]
  simp only [hb, Bool.not_true, Bool.false_eq_true, if_false, gt_iff_lt, ← UInt64.not_le, ite_not]

/-- A number that is read is one after every digit of its run. -/
theorem Admits.of_valueFrom {limit n : Nat} (hs : ∀ b ∈ s, isDigit b = true)
    (h : Admits limit (Decimal.valueFrom n s)) : Admits limit n := by
  induction s generalizing n with
  | nil => exact h
  | cons b s ih =>
    obtain ⟨hb, hs⟩ := List.forall_mem_cons.1 hs
    exact (ih hs h).of_withDigit (Ascii.digitValue_le hb)

/-- A run is read to its end exactly if it has nothing but digits and its number is one that is
read. It is read as its number. -/
theorem readDigitsFrom_accepts (hv : Admits limit.toNat value.toNat) (s : Text) :
    ((readDigitsFrom limit value s).fault = none ↔
        (∀ b ∈ s, isDigit b = true) ∧ Admits limit.toNat (Decimal.valueFrom value.toNat s)) ∧
      ((readDigitsFrom limit value s).fault = none →
        (readDigitsFrom limit value s).value.toNat = Decimal.valueFrom value.toNat s) := by
  induction s generalizing value with
  | nil => exact ⟨by simp [readDigitsFrom, hv], fun _ => rfl⟩
  | cons b s ih =>
    cases hb : isDigit b with
    | false =>
      rw [readDigitsFrom_of_not_digit hb]
      simp [hb]
    | true =>
      have hd := Ascii.digitValue_le hb
      rw [readDigitsFrom_of_digit hb, Decimal.valueFrom_cons, List.forall_mem_cons]
      by_cases ht : value ≤ (limit - UInt64.ofNat (digitValue b)) / 10
      · have ha := (le_tenth_iff_admits hd hv).1 ht
        have hn := toNat_withDigit_of_admits hd ha
        obtain ⟨hf, hr⟩ := @ih (value * 10 + UInt64.ofNat (digitValue b)) (hn ▸ ha)
        rw [hn] at hf hr
        rw [if_pos ht]
        exact ⟨hf.trans (and_congr_left' (and_iff_right hb).symm), hr⟩
      · rw [if_neg ht]
        refine ⟨iff_of_false (by simp) ?_, by simp⟩
        rintro ⟨⟨-, hs⟩, ha⟩
        exact ht ((le_tenth_iff_admits hd hv).2 (ha.of_valueFrom hs))

/-- The reader goes on behind a run that it has read with the number of the run. -/
theorem readDigitsFrom_append (h : readDigitsFrom limit value front = ⟨v, none⟩) (s : Text) :
    readDigitsFrom limit value (front ++ s) = readDigitsFrom limit v s := by
  induction front generalizing value with
  | nil =>
    obtain ⟨rfl, -⟩ := DigitReading.mk.inj h
    rfl
  | cons b front ih =>
    cases hb : isDigit b with
    | false =>
      rw [readDigitsFrom_of_not_digit hb] at h
      cases h
    | true =>
      rw [readDigitsFrom_of_digit hb] at h
      rw [List.cons_append, readDigitsFrom_of_digit hb]
      split at h
      · next ht =>
        rw [if_pos ht]
        exact ih h
      · cases h

theorem readDigits_fault_eq_none_iff (limit : UInt64) (s : Text) :
    (readDigits limit s).fault = none ↔
      s ≠ [] ∧ (∀ b ∈ s, isDigit b = true) ∧ Admits limit.toNat (Decimal.value s) := by
  by_cases hs : s = []
  · simp [hs]
  · have hr : readDigits limit s = readDigitsFrom limit 0 s := by simp [readDigits, hs]
    rw [hr, (readDigitsFrom_accepts (admits_zero _) s).1, and_iff_right hs]
    rfl

/-- A text is read with a limit of nine or more exactly if it is a run of one digit or more whose
number is at most the limit. With a smaller limit it is read exactly if it is such a run whose
number has 64 bits and whose digits behind the first one of the number are greater than the limit.
It is read as its number. The numbers before the digits and behind them never wrap around, and what
the limit leaves beside a digit does exactly if the digit is greater than the limit. A caller with a
place for a wording finds there what was wrong if the text is not read, and otherwise what stood
there before. -/
theorem readDigits_accepts_iff (limit : UInt64) (s : Text) :
    let reading := readDigits limit s
    let number := Decimal.value s
    (9 ≤ limit.toNat → (reading.fault = none ↔
        s ≠ [] ∧ (∀ b ∈ s, isDigit b = true) ∧ number ≤ limit.toNat)) ∧
      (limit.toNat < 9 → (reading.fault = none ↔
        s ≠ [] ∧ (∀ b ∈ s, isDigit b = true) ∧ number < 2 ^ 64 ∧
          DigitsExceed limit.toNat number)) ∧
      (reading.fault = none → reading.value.toNat = number) ∧
      (∀ front v b back, s = front ++ b :: back → readDigitsFrom limit 0 front = ⟨v, none⟩ →
        isDigit b = true →
          let digit := UInt64.ofNat (digitValue b)
          v.toNat = Decimal.value front ∧
            (limit - digit).toNat + digitValue b =
              limit.toNat + (if limit.toNat < digitValue b then 2 ^ 64 else 0) ∧
            (v ≤ (limit - digit) / 10 →
              readDigitsFrom limit 0 s = readDigitsFrom limit (v * 10 + digit) back ∧
                (v * 10 + digit).toNat = v.toNat * 10 + digitValue b) ∧
            (¬ v ≤ (limit - digit) / 10 → reading = ⟨v, some .overflow⟩)) ∧
      ((∀ before, reading.report (some before) = some before) ↔ reading.fault = none) ∧
      ∀ fault place, reading.fault = some fault →
        reading.report place = place.map fun _ => fault.message := by
  intro reading number
  have haccepts := readDigits_fault_eq_none_iff limit s
  have hrun {t : Text} (ht : t ≠ []) : readDigits limit t = readDigitsFrom limit 0 t := by
    simp [readDigits, ht]
  refine ⟨fun hl => ?_, fun hl => ?_, fun h => ?_, ?_, ?_, ?_⟩
  · rwa [Admits, if_pos hl] at haccepts
  · rwa [Admits, if_neg (Nat.not_le_of_lt hl)] at haccepts
  · obtain ⟨hs, -⟩ := haccepts.1 h
    change (readDigits limit s).fault = none at h
    rw [hrun hs] at h
    change (readDigits limit s).value.toNat = _
    rw [hrun hs]
    exact (readDigitsFrom_accepts (admits_zero _) s).2 h
  · rintro front v b back rfl hfront hb digit
    have hzero : Admits limit.toNat (0 : UInt64).toNat := admits_zero _
    obtain ⟨hf, hv⟩ := readDigitsFrom_accepts hzero front
    rw [hfront] at hf hv
    obtain ⟨-, hadmits⟩ := hf.1 rfl
    have hv : v.toNat = Decimal.value front := hv rfl
    have hd := Ascii.digitValue_le hb
    have hread : readDigitsFrom limit 0 (front ++ b :: back) = _ :=
      (readDigitsFrom_append hfront _).trans (readDigitsFrom_of_digit hb limit v back)
    refine ⟨hv, toNat_sub_digit limit hd, fun ht => ⟨by rw [hread, if_pos ht], ?_⟩, fun ht => ?_⟩
    · exact toNat_withDigit_of_admits hd ((le_tenth_iff_admits hd (hv ▸ hadmits)).1 ht)
    · change readDigits limit _ = _
      rw [hrun (by simp), hread, if_neg ht]
  · rcases hr : reading.fault with _ | fault
    · simp [DigitReading.report, hr]
    · refine iff_of_false (fun h => ?_) (Option.some_ne_none fault)
      have hw := h (0 :: fault.message)
      simp [DigitReading.report, hr] at hw
  · intro fault place h
    cases place <;> simp [DigitReading.report, h]

/-- Not only the numbers up to the limit are read: nine is read with the limit five. -/
theorem readDigits_passes_limit :
    ¬ ∀ (limit : UInt64) (s : Text), (readDigits limit s).fault = none ↔
      s ≠ [] ∧ (∀ b ∈ s, isDigit b = true) ∧ Decimal.value s ≤ limit.toNat := by
  intro h
  obtain ⟨-, -, hle⟩ := (h 5 "9").1 (by decide +kernel)
  exact absurd hle (by decide +kernel)

end Runs

end ScriptBase

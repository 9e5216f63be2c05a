import ScriptBase.Text.Ascii

/-!
# Decimal numerals of integers

## Main definitions

* `ScriptBase.Decimal.ofNat`, `ScriptBase.Decimal.ofInt`: the numeral of a number, without leading
  zeros, a minus sign in front of a negative one.
* `ScriptBase.Decimal.value`: the number that a run of digits stands for.
* `ScriptBase.Decimal.digitCount`: how many digits a number takes.
-/

namespace ScriptBase.Decimal

/-- The digits of a number, without leading zeros. -/
def ofNat (n : Nat) : Text := (Nat.toDigits 10 n).map Char.toUInt8

/-- The numeral of an integer. -/
def ofInt : Int → Text
  | .ofNat n => ofNat n
  | .negSucc n => Ascii.minus :: ofNat (n + 1)

/-- How many digits the numeral of a number has. -/
def digitCount (n : Nat) : Nat := (ofNat n).length

/-- The number whose first digits stand for `n` and whose other digits are given. -/
def valueFrom (n : Nat) : Text → Nat
  | [] => n
  | b :: digits => valueFrom (n * 10 + Ascii.digitValue b) digits

/-- The number that a run of digits stands for. -/
def value (digits : Text) : Nat := valueFrom 0 digits

@[simp] theorem valueFrom_nil (n : Nat) : valueFrom n [] = n := rfl

@[simp] theorem valueFrom_cons (n : Nat) (b : UInt8) (digits : Text) :
    valueFrom n (b :: digits) = valueFrom (n * 10 + Ascii.digitValue b) digits := by
  rw [valueFrom]

theorem valueFrom_append (n : Nat) (ds es : Text) :
    valueFrom n (ds ++ es) = valueFrom (valueFrom n ds) es := by
  induction ds generalizing n with
  | nil => simp
  | cons b ds ih => simp [ih]

theorem ofInt_natCast (n : Nat) : ofInt (n : Int) = ofNat n := rfl

/-- The numeral of a negative integer is that of its magnitude behind a minus sign. -/
theorem ofInt_of_neg {n : Int} (h : n < 0) : ofInt n = Ascii.minus :: ofNat n.natAbs := by
  cases n with
  | ofNat n => exact absurd h (by simp)
  | negSucc n => rfl

/-! ### Reading numerals -/

theorem ofNat_ne_nil (n : Nat) : ofNat n ≠ [] := by
  simp [ofNat, Nat.toDigits_ne_nil]

theorem toNat_toUInt8_of_isDigit {c : Char} (h : c.isDigit = true) :
    48 ≤ c.toNat ∧ c.toNat ≤ 57 ∧ c.toUInt8.toNat = c.toNat := by
  simp only [Char.isDigit, Bool.and_eq_true, decide_eq_true_eq, UInt32.le_iff_toNat_le] at h
  have hl : 48 ≤ c.toNat := h.1
  have hu : c.toNat ≤ 57 := h.2
  refine ⟨hl, hu, ?_⟩
  rw [Char.toUInt8, UInt32.toNat_toUInt8]
  exact Nat.mod_eq_of_lt (Nat.lt_of_le_of_lt hu (by decide))

/-- Numerals of natural numbers consist of digits. -/
theorem isDigit_of_mem_ofNat {n : Nat} {b : UInt8} (h : b ∈ ofNat n) : Ascii.isDigit b = true := by
  obtain ⟨c, hc, rfl⟩ := List.mem_map.1 h
  have hd := Nat.isDigit_of_mem_toDigits (by decide) (by decide) hc
  obtain ⟨hl, hu, hn⟩ := toNat_toUInt8_of_isDigit hd
  simp only [Ascii.isDigit, Bool.and_eq_true, decide_eq_true_eq, UInt8.le_iff_toNat_le, hn]
  exact ⟨hl, hu⟩

theorem digitValue_toUInt8 {c : Char} (h : c.isDigit = true) :
    Ascii.digitValue c.toUInt8 = c.toNat - 48 := by
  obtain ⟨hl, -, hn⟩ := toNat_toUInt8_of_isDigit h
  have hle : (0x30 : UInt8) ≤ c.toUInt8 := by
    rw [UInt8.le_iff_toNat_le, hn]
    exact hl
  rw [Ascii.digitValue, UInt8.toNat_sub_of_le _ _ hle, hn]
  rfl

theorem valueFrom_map_toUInt8 (n : Nat) {cs : List Char} (h : ∀ c ∈ cs, c.isDigit = true) :
    valueFrom n (cs.map Char.toUInt8) = Nat.ofDigitChars 10 cs n := by
  induction cs generalizing n with
  | nil => rfl
  | cons c cs ih =>
    rw [List.forall_mem_cons] at h
    rw [List.map_cons, valueFrom_cons, ih _ h.2, digitValue_toUInt8 h.1, Nat.ofDigitChars_cons,
      Nat.mul_comm]
    rfl

/-- A number is the value of its numeral. -/
@[simp] theorem value_ofNat (n : Nat) : value (ofNat n) = n := by
  have h {c : Char} (hc : c ∈ Nat.toDigits 10 n) : c.isDigit = true :=
    Nat.isDigit_of_mem_toDigits (by decide) (by decide) hc
  rw [value, ofNat, valueFrom_map_toUInt8 0 fun c => h]
  exact Nat.ofDigitChars_toDigits (by decide) (by decide)

end ScriptBase.Decimal

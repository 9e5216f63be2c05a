import Mathlib.Algebra.Order.Ring.Int
import Mathlib.Data.List.TakeWhile
import ScriptBase.Numeral.Integer

/-!
# The spelling of integers

An integer is spelled by its decimal digits behind a sign or without one, with blanks around it. Of
the texts that spell an integer, those are read whose integer has 64 bits. The reader goes through
the digits once and compares the number so far with a bound, so it stops at the first digit that
takes the number past the limit of its sign, and finds what is no digit only before that.

## Main definitions

* `ScriptBase.Sign`: what may stand in front of the digits.
* `ScriptBase.Text.Unsigned`: a text that starts with no sign.
* `ScriptBase.Spells`: a text spells an integer.
* `ScriptBase.greatestMagnitude`: the limit for the digits behind a sign.

## Main results

* `ScriptBase.readDigitsFrom_eq`: what a run of digits is read as.
* `ScriptBase.parseInteger_eq`: what a text is read as, or what is wrong with it.
* `ScriptBase.parseInteger_eq_ok_iff`: the texts that are read as an integer are those that spell
  it.
-/

namespace ScriptBase

open Ascii (isBlank isDigit digitValue)

/-! ### Digits -/

theorem Ascii.digitValue_le {b : UInt8} (h : isDigit b = true) : digitValue b ≤ 9 := by
  simp only [isDigit, Bool.and_eq_true, decide_eq_true_eq, UInt8.le_iff_toNat_le] at h
  obtain ⟨h₁, h₂⟩ := h
  rw [digitValue, UInt8.toNat_sub_of_le _ _ (UInt8.le_iff_toNat_le.2 h₁)]
  have h30 : (0x30 : UInt8).toNat = 48 := rfl
  have h39 : (0x39 : UInt8).toNat = 57 := rfl
  omega

/-- More digits do not make a number smaller. -/
theorem Decimal.le_valueFrom (n : Nat) (digits : Text) : n ≤ Decimal.valueFrom n digits := by
  induction digits generalizing n with
  | nil => exact Nat.le_refl n
  | cons b digits ih =>
    rw [valueFrom_cons]
    have h := ih (n * 10 + digitValue b)
    omega

section Reading

variable {limit value : UInt64} {d : Nat}

theorem toNat_ofNat_digit (hd : d ≤ 9) : (UInt64.ofNat d).toNat = d :=
  UInt64.toNat_ofNat_of_lt' (Nat.lt_of_le_of_lt hd (by decide))

/-- With a limit of nine or more, the bound for the number so far is passed exactly if the digit
takes the number past the limit. -/
theorem lt_tenth_iff (hl : 9 ≤ limit.toNat) (hd : d ≤ 9) :
    (limit - UInt64.ofNat d) / 10 < value ↔ limit.toNat < value.toNat * 10 + d := by
  have hd' := toNat_ofNat_digit hd
  have hs : (limit - UInt64.ofNat d).toNat = limit.toNat - d := by
    rw [UInt64.toNat_sub_of_le _ _ (UInt64.le_iff_toNat_le.2 (by omega)), hd']
  have h10 : (10 : UInt64).toNat = 10 := rfl
  rw [UInt64.lt_iff_toNat_lt, UInt64.toNat_div, hs, h10]
  omega

/-- A digit that is accepted is put behind the number so far, without overflow. -/
theorem toNat_withDigit (h : value.toNat * 10 + d ≤ limit.toNat) (hd : d ≤ 9) :
    (value * 10 + UInt64.ofNat d).toNat = value.toNat * 10 + d := by
  have hb := limit.toNat_lt
  have h10 : (10 : UInt64).toNat = 10 := rfl
  rw [UInt64.toNat_add, UInt64.toNat_mul, toNat_ofNat_digit hd, h10]
  omega

/-- Digits are read up to the first that takes the number past the limit, and up to the first byte
that is none. Of the two, what comes first is told. -/
theorem readDigitsFrom_eq (hl : 9 ≤ limit.toNat) (hv : value.toNat ≤ limit.toNat) (s : Text) :
    (readDigitsFrom limit value s).fault =
        (if limit.toNat < Decimal.valueFrom value.toNat (s.takeWhile isDigit) then some .overflow
        else if s.all isDigit then none else some .invalidCharacter) ∧
      ((readDigitsFrom limit value s).fault = none →
        (readDigitsFrom limit value s).value.toNat = Decimal.valueFrom value.toNat s) := by
  induction s generalizing value with
  | nil => exact ⟨by simp [readDigitsFrom, hv], fun _ => rfl⟩
  | cons b s ih =>
    cases hb : isDigit b with
    | false =>
      rw [readDigitsFrom_of_not_digit hb]
      simp [hb, hv]
    | true =>
      have hd := Ascii.digitValue_le hb
      have hr := Decimal.le_valueFrom (value.toNat * 10 + digitValue b) (s.takeWhile isDigit)
      have hw : (b :: s).takeWhile isDigit = b :: s.takeWhile isDigit :=
        List.takeWhile_cons_of_pos hb
      rw [readDigitsFrom, hw, Decimal.valueFrom_cons]
      by_cases ho : limit.toNat < value.toNat * 10 + digitValue b
      · have ho' : limit.toNat < Decimal.valueFrom (value.toNat * 10 + digitValue b)
            (s.takeWhile isDigit) := by omega
        simp [hb, (lt_tenth_iff hl hd).2 ho, ho']
      · have hn := toNat_withDigit (Nat.le_of_not_lt ho) hd
        obtain ⟨hf, hr⟩ := @ih (value * 10 + UInt64.ofNat (digitValue b)) (by omega)
        rw [hn] at hf hr
        simp only [hb, Bool.not_true, Bool.false_eq_true, if_false, gt_iff_lt,
          mt (lt_tenth_iff hl hd).1 ho, List.all_cons, Bool.true_and, Decimal.valueFrom_cons]
        exact ⟨hf, hr⟩

/-- A text that is not empty is a numeral up to the limit, or it is told what is wrong with it. -/
theorem readDigits_eq (hl : 9 ≤ limit.toNat) {s : Text} (hs : s ≠ []) :
    (readDigits limit s).fault =
        (if limit.toNat < Decimal.value (s.takeWhile isDigit) then some .overflow
        else if s.all isDigit then none else some .invalidCharacter) ∧
      ((readDigits limit s).fault = none →
        (readDigits limit s).value.toNat = Decimal.value s) := by
  have hr : readDigits limit s = readDigitsFrom limit 0 s := by simp [readDigits, hs]
  rw [hr]
  exact readDigitsFrom_eq hl (Nat.zero_le _) s

end Reading

/-! ### Blanks and signs -/

namespace Text

/-- Trimming takes nothing but blanks off a text. -/
theorem exists_blanks_trimBlanks (s : Text) :
    ∃ front back, s = front ++ s.trimBlanks ++ back ∧ (∀ b ∈ front, isBlank b = true) ∧
      ∀ b ∈ back, isBlank b = true := by
  have hall (t : Text) : ∀ b ∈ t.takeWhile isBlank, isBlank b = true :=
    fun b hb => List.all_eq_true.1 List.all_takeWhile b hb
  refine ⟨s.takeWhile isBlank, ((s.dropWhile isBlank).reverse.takeWhile isBlank).reverse, ?_,
    hall s, fun b hb => hall _ b (List.mem_reverse.1 hb)⟩
  have hr := congrArg List.reverse
    (List.takeWhile_append_dropWhile (p := isBlank) (l := (s.dropWhile isBlank).reverse))
  rw [List.reverse_append, List.reverse_reverse] at hr
  rw [List.append_assoc, trimBlanks, hr, List.takeWhile_append_dropWhile]

/-- A text without blanks is what trimming leaves of it, whatever blanks stand around it. -/
theorem trimBlanks_append {front s back : Text} (hfront : ∀ b ∈ front, isBlank b = true)
    (hs : ∀ b ∈ s, isBlank b = false) (hback : ∀ b ∈ back, isBlank b = true) (hn : s ≠ []) :
    (front ++ s ++ back).trimBlanks = s := by
  have hd {t : Text} (u : Text) (ht : ∀ b ∈ t, isBlank b = false) (hn : t ≠ []) :
      (t ++ u).dropWhile isBlank = t ++ u := by
    obtain ⟨b, t, rfl⟩ := List.exists_cons_of_ne_nil hn
    exact List.dropWhile_cons_of_neg (by simp [ht b List.mem_cons_self])
  rw [trimBlanks, List.append_assoc, List.dropWhile_append_of_pos hfront, hd back hs hn,
    List.reverse_append, List.dropWhile_append_of_pos fun b hb => hback b (List.mem_reverse.1 hb)]
  have hr := hd [] (t := s.reverse) (fun b hb => hs b (List.mem_reverse.1 hb)) (by simpa using hn)
  rw [List.append_nil] at hr
  rw [hr, List.reverse_reverse]

/-- No sign stands at the start of a text. -/
def Unsigned (s : Text) : Prop := ∀ b ∈ s.head?, b ≠ Ascii.minus ∧ b ≠ Ascii.plus

end Text

/-- What may stand in front of the digits of an integer. -/
inductive Sign where
  | none
  | plus
  | minus
  deriving DecidableEq, Repr

namespace Sign

/-- The bytes of a sign. -/
def text : Sign → Text
  | none => []
  | plus => [Ascii.plus]
  | minus => [Ascii.minus]

/-- Whether a sign makes a number negative. -/
def isMinus : Sign → Bool
  | minus => true
  | none | plus => false

/-- A magnitude with a minus sign in front of it, or without one. -/
def signed (negative : Bool) (n : Nat) : Int := if negative then -(n : Int) else n

/-- A text starts with a sign, or does not start with one. -/
theorem exists_text_append (s : Text) :
    ∃ (sign : Sign) (rest : Text), s = sign.text ++ rest ∧ (sign = none → rest.Unsigned) := by
  cases s with
  | nil => exact ⟨none, [], rfl, fun _ => nofun⟩
  | cons b s =>
    by_cases hm : b = Ascii.minus
    · exact ⟨minus, s, by rw [hm]; rfl, nofun⟩
    by_cases hp : b = Ascii.plus
    · exact ⟨plus, s, by rw [hp]; rfl, nofun⟩
    refine ⟨none, b :: s, rfl, fun _ => ?_⟩
    rintro _ ⟨⟩
    exact ⟨hm, hp⟩

/-- A sign is taken off the text that it stands in front of. -/
theorem takeSign_append_of_unsigned {sign : Sign} {rest : Text} (h : sign = none → rest.Unsigned) :
    (sign.text ++ rest).takeSign = (sign.isMinus, rest) := by
  cases sign with
  | plus | minus => rfl
  | none =>
    cases rest with
    | nil => rfl
    | cons b rest =>
      obtain ⟨hm, hp⟩ := h rfl b rfl
      simp [text, Text.takeSign, hm, hp, isMinus]

/-- Digits do not start with a sign. -/
theorem unsigned_of_isDigit {digits : Text} (hd : ∀ b ∈ digits, isDigit b = true) :
    digits.Unsigned := by
  intro b hb
  have hb := hd b (List.mem_of_mem_head? hb)
  constructor <;>
    · rintro rfl
      cases hb

/-- So it is taken off digits. -/
theorem takeSign_append (sign : Sign) {digits : Text} (hd : ∀ b ∈ digits, isDigit b = true) :
    (sign.text ++ digits).takeSign = (sign.isMinus, digits) :=
  takeSign_append_of_unsigned fun _ => unsigned_of_isDigit hd

/-- What is taken off a text as its sign is a sign. -/
theorem exists_takeSign (s : Text) :
    ∃ sign : Sign, s = sign.text ++ s.takeSign.2 ∧ s.takeSign.1 = sign.isMinus := by
  obtain ⟨sign, rest, rfl, hu⟩ := exists_text_append s
  exact ⟨sign, by rw [takeSign_append_of_unsigned hu], by rw [takeSign_append_of_unsigned hu]⟩

/-- Signs and digits are no blanks. -/
theorem isBlank_eq_false (sign : Sign) {digits : Text} (hd : ∀ b ∈ digits, isDigit b = true) :
    ∀ b ∈ sign.text ++ digits, isBlank b = false := by
  intro b hb
  rcases List.mem_append.1 hb with hb | hb
  · cases sign with
    | none => cases hb
    | plus | minus =>
      rw [List.mem_singleton.1 hb]
      rfl
  · have h := hd b hb
    simp only [isDigit, isBlank, Bool.and_eq_true, Bool.or_eq_false_iff, Bool.and_eq_false_iff,
      decide_eq_true_eq, decide_eq_false_iff_not, beq_eq_false_iff_ne, UInt8.le_iff_toNat_le,
      ne_eq, ← UInt8.toNat_inj] at h ⊢
    simp at h ⊢
    omega

end Sign

/-! ### Literals -/

/-- The greatest magnitude of a 64-bit integer with a minus sign, or without one. -/
def greatestMagnitude (negative : Bool) : Nat := if negative then 2 ^ 63 else 2 ^ 63 - 1

theorem toNat_magnitudeLimit (negative : Bool) :
    (magnitudeLimit negative).toNat = greatestMagnitude negative := by
  cases negative <;> rfl

/-- A magnitude within the limit of its sign is that of a 64-bit integer, and the other way
round. -/
theorem le_greatestMagnitude_iff (negative : Bool) (n : Nat) :
    n ≤ greatestMagnitude negative ↔
      -2 ^ 63 ≤ Sign.signed negative n ∧ Sign.signed negative n ≤ 2 ^ 63 - 1 := by
  cases negative <;> simp [greatestMagnitude, Sign.signed]

/-- The least integer is its own opposite, so it is made rightly too. -/
theorem signed_toInt64 (negative : Bool) (n : UInt64) :
    (if negative then -n.toInt64 else n.toInt64) = Int64.ofInt (Sign.signed negative n.toNat) := by
  have hn : n.toInt64 = Int64.ofInt n.toNat := by
    rw [Int64.ofInt_eq_ofNat, ← UInt64.toInt64_ofNat', UInt64.ofNat_toNat]
  rw [hn, Sign.signed]
  split
  · rw [Int64.ofInt_neg]
  · rfl

/-- Without its blanks and its sign, a text has to be digits, and the number has to be within the
limit of the sign. If it is not, this is told unless a byte that is no digit comes before the digit
that takes the number past the limit. -/
theorem parseInteger_eq (s : Text) :
    parseInteger s =
      let (negative, rest) := s.trimBlanks.takeSign
      if rest = [] then .error .missingDigits
      else if greatestMagnitude negative < Decimal.value (rest.takeWhile isDigit) then
        .error .overflow
      else if rest.all isDigit then
        .ok (Int64.ofInt (Sign.signed negative (Decimal.value rest)))
      else .error .invalidCharacter := by
  rw [parseInteger]
  rcases s.trimBlanks.takeSign with ⟨negative, rest⟩
  dsimp only
  by_cases hr : rest = []
  · rw [hr]
    rfl
  · have hl : 9 ≤ (magnitudeLimit negative).toNat := by cases negative <;> decide
    have h := readDigits_eq hl hr
    rw [toNat_magnitudeLimit] at h
    rw [if_neg hr]
    generalize readDigits (magnitudeLimit negative) rest = reading at h
    obtain ⟨value, fault⟩ := reading
    obtain ⟨rfl : fault = _, hv⟩ := h
    by_cases ho : greatestMagnitude negative < Decimal.value (rest.takeWhile isDigit)
    · simp only [if_pos ho]
    · by_cases hd : rest.all isDigit = true
      · simp only [if_neg ho, if_pos hd, forall_const] at hv ⊢
        rw [signed_toInt64, hv]
      · simp only [if_neg ho, if_neg hd]

/-- The least integer has a magnitude that no positive one has, and one more is too much. -/
example : parseInteger " -9223372036854775808\n" = .ok Int64.minValue ∧
    parseInteger "9223372036854775808x" = .error .overflow := by
  decide +kernel

/-! ### Spelling -/

/-- A text *spells* an integer if it is made up of blanks, a sign or none, one or more digits, and
blanks. -/
inductive Spells : Text → Int → Prop
  | intro {front digits back : Text} (sign : Sign) (hfront : ∀ b ∈ front, isBlank b = true)
      (hn : digits ≠ []) (hd : ∀ b ∈ digits, isDigit b = true)
      (hback : ∀ b ∈ back, isBlank b = true) :
      Spells (front ++ (sign.text ++ digits) ++ back)
        (Sign.signed sign.isMinus (Decimal.value digits))

/-- A sign and digits spell an integer. -/
theorem Sign.spells (sign : Sign) {digits : Text} (hn : digits ≠ [])
    (hd : ∀ b ∈ digits, isDigit b = true) :
    Spells (sign.text ++ digits) (signed sign.isMinus (Decimal.value digits)) := by
  have hnil : ∀ b ∈ ([] : Text), isBlank b = true := List.forall_mem_nil _
  have h := Spells.intro sign hnil hn hd hnil
  rwa [List.nil_append, List.append_nil] at h

/-- Blanks in front of a text that spells an integer change nothing. -/
theorem Spells.blanks_append {s front : Text} {n : Int} (hfront : ∀ b ∈ front, isBlank b = true)
    (h : Spells s n) : Spells (front ++ s) n := by
  obtain @⟨front', digits, back, sign, hfront', hn, hd, hback⟩ := h
  have h := Spells.intro sign (List.forall_mem_append.2 ⟨hfront, hfront'⟩) hn hd hback
  simpa only [List.append_assoc] using h

/-- Neither do blanks behind it. -/
theorem Spells.append_blanks {s back : Text} {n : Int} (h : Spells s n)
    (hback : ∀ b ∈ back, isBlank b = true) : Spells (s ++ back) n := by
  obtain @⟨front, digits, back', sign, hfront, hn, hd, hback'⟩ := h
  have h := Spells.intro sign hfront hn hd (List.forall_mem_append.2 ⟨hback', hback⟩)
  simpa only [List.append_assoc] using h

/-- What is left of a text that spells an integer without its blanks and its sign is digits. -/
theorem takeSign_trimBlanks_of_spells {s : Text} {n : Int} (h : Spells s n) :
    let left := s.trimBlanks.takeSign
    left.2 ≠ [] ∧ (∀ b ∈ left.2, isDigit b = true) ∧
      n = Sign.signed left.1 (Decimal.value left.2) := by
  obtain ⟨sign, hfront, hn, hd, hback⟩ := h
  rw [Text.trimBlanks_append hfront (sign.isBlank_eq_false hd) hback (by simp [hn]),
    sign.takeSign_append hd]
  exact ⟨hn, hd, rfl⟩

/-- A text of which digits are left spells the integer of these and of its sign. -/
theorem spells_of_takeSign_trimBlanks {s : Text} (hn : s.trimBlanks.takeSign.2 ≠ [])
    (hd : ∀ b ∈ s.trimBlanks.takeSign.2, isDigit b = true) :
    Spells s
      (Sign.signed s.trimBlanks.takeSign.1 (Decimal.value s.trimBlanks.takeSign.2)) := by
  obtain ⟨front, back, hs, hfront, hback⟩ := s.exists_blanks_trimBlanks
  obtain ⟨sign, ht, hsign⟩ := Sign.exists_takeSign s.trimBlanks
  have h := Spells.intro sign hfront hn hd hback
  rw [← ht, ← hs] at h
  rwa [hsign]

/-- The texts that are read as a 64-bit integer are those that spell it. -/
theorem parseInteger_eq_ok_iff {s : Text} {n : Int64} :
    parseInteger s = .ok n ↔ Spells s n.toInt := by
  rw [parseInteger_eq]
  dsimp only
  constructor
  · intro h
    split at h
    · cases h
    next hn =>
    split at h
    · cases h
    next ho =>
    split at h
    · next hd =>
      have hd' := List.all_eq_true.1 hd
      rw [List.takeWhile_eq_self_iff.2 hd', Nat.not_lt, le_greatestMagnitude_iff] at ho
      obtain rfl := Except.ok.inj h
      rw [Int64.toInt_ofInt_of_le (by omega) (by omega)]
      exact spells_of_takeSign_trimBlanks hn hd'
    · cases h
  · intro h
    obtain ⟨hn, hd, hv⟩ := takeSign_trimBlanks_of_spells h
    have ho : ¬ greatestMagnitude s.trimBlanks.takeSign.1 <
        Decimal.value s.trimBlanks.takeSign.2 := by
      rw [Nat.not_lt, le_greatestMagnitude_iff, ← hv]
      have h₁ := n.le_toInt
      have h₂ := n.toInt_lt
      omega
    rw [if_neg hn, List.takeWhile_eq_self_iff.2 hd, if_neg ho, if_pos (List.all_eq_true.2 hd), ← hv,
      Int64.ofInt_toInt]

/-- Every text that is no literal is refused for that alone. -/
theorem integerOf_eq_error {s : Text} {fault : Fault} (h : integerOf s = .error fault) :
    fault = .invalidInteger s := by
  rw [integerOf] at h
  split at h
  · cases h
  · exact (Except.error.inj h).symm

/-- An integer of 64 bits. -/
def IsInt64 (n : Int) : Prop := -2 ^ 63 ≤ n ∧ n ≤ 2 ^ 63 - 1

instance (n : Int) : Decidable (IsInt64 n) := inferInstanceAs (Decidable (_ ∧ _))

theorem isInt64_toInt (n : Int64) : IsInt64 n.toInt := by
  have h₁ := n.le_toInt
  have h₂ := n.toInt_lt
  exact ⟨by omega, by omega⟩

theorem IsInt64.toInt_ofInt {n : Int} (h : IsInt64 n) : (Int64.ofInt n).toInt = n :=
  Int64.toInt_ofInt_of_le h.1 (Int.lt_of_le_sub_one h.2)

/-- A text is read as an integer exactly if it spells one of 64 bits. -/
theorem exists_integerOf_iff {s : Text} {n : Int} :
    (∃ found, integerOf s = .ok found ∧ found.toInt = n) ↔ Spells s n ∧ IsInt64 n := by
  constructor
  · rintro ⟨found, h, rfl⟩
    exact ⟨parseInteger_eq_ok_iff.1 (integerOf_eq_ok_iff.1 h), isInt64_toInt found⟩
  · rintro ⟨h, hn⟩
    rw [← hn.toInt_ofInt] at h
    exact ⟨Int64.ofInt n, integerOf_eq_ok_iff.2 (parseInteger_eq_ok_iff.2 h), hn.toInt_ofInt⟩

/-- A text that spells an integer is read as it if it has 64 bits, and is refused if not. -/
theorem integerOf_of_spells {s : Text} {n : Int} (h : Spells s n) :
    integerOf s = if IsInt64 n then .ok (Int64.ofInt n) else .error (.invalidInteger s) := by
  split
  · next hn =>
    obtain ⟨found, hf, rfl⟩ := exists_integerOf_iff.2 ⟨h, hn⟩
    rw [hf, Int64.ofInt_toInt]
  · next hn =>
    rcases hf : integerOf s with fault | found
    · rw [integerOf_eq_error hf]
    · obtain ⟨hs, hi⟩ := exists_integerOf_iff.1 ⟨found, hf, rfl⟩
      obtain ⟨-, -, hv⟩ := takeSign_trimBlanks_of_spells h
      obtain ⟨-, -, hv'⟩ := takeSign_trimBlanks_of_spells hs
      exact absurd (hv.trans hv'.symm ▸ hi) hn

/-! ### What is wrong with a text -/

/-- A text is refused as a literal with a wording of what is wrong with it. -/
def RefusedWith (s wording : Text) : Prop :=
  ∃ fault, parseInteger s = .error fault ∧ fault.message = wording

/-- The faults of literals differ in their wordings. -/
theorem LiteralFault.message_injective {a b : LiteralFault} (h : a.message = b.message) :
    a = b := by
  revert h
  cases a <;> cases b <;> decide

theorem refusedWith_message_iff {s : Text} (fault : LiteralFault) :
    RefusedWith s fault.message ↔ parseInteger s = .error fault := by
  constructor
  · rintro ⟨other, h, hm⟩
    rwa [LiteralFault.message_injective hm] at h
  · exact fun h => ⟨fault, h, rfl⟩

/-- A text is read as an integer of 64 bits exactly if it spells it, with blanks around a sign or
none and one or more digits, and every other text raises a fault of a wrong value. What is wrong
with it is told by three wordings. Digits are missing exactly if nothing is left of the text without
its blanks and its sign. Otherwise the number of the digits up to the first byte that is none is
past the limit of the sign, or else a byte is no digit. -/
theorem spelled_or_refused (s : Text) :
    (∀ n : Int, (∃ found, integerOf s = .ok found ∧ found.toInt = n) ↔ Spells s n ∧ IsInt64 n) ∧
      ((∃ fault, integerOf s = .error fault ∧ fault.kind = .value) ↔
        ¬ ∃ n, Spells s n ∧ IsInt64 n) ∧
      let (negative, rest) := s.trimBlanks.takeSign
      let number := Decimal.value (rest.takeWhile isDigit)
      (RefusedWith s "missing digits in integer literal" ↔ rest = []) ∧
        (RefusedWith s "integer overflow" ↔
          rest ≠ [] ∧ greatestMagnitude negative < number) ∧
        (RefusedWith s "invalid character in integer literal" ↔
          (∀ n, parseInteger s ≠ .ok n) ∧ rest ≠ [] ∧ number ≤ greatestMagnitude negative) := by
  refine ⟨fun n => exists_integerOf_iff, ⟨?_, fun h => ?_⟩, ?_⟩
  · rintro ⟨fault, h, -⟩ ⟨n, hn⟩
    obtain ⟨found, hf, -⟩ := exists_integerOf_iff.2 hn
    rw [h] at hf
    cases hf
  · rcases hp : integerOf s with fault | found
    · exact ⟨fault, rfl, by rw [integerOf_eq_error hp]; rfl⟩
    · exact absurd ⟨found.toInt, exists_integerOf_iff.1 ⟨found, hp, rfl⟩⟩ h
  · have hp := parseInteger_eq s
    generalize s.trimBlanks.takeSign = left at hp
    obtain ⟨negative, rest⟩ := left
    dsimp only at hp ⊢
    have hmissing : RefusedWith s "missing digits in integer literal" ↔
        parseInteger s = .error .missingDigits := refusedWith_message_iff .missingDigits
    have hoverflow : RefusedWith s "integer overflow" ↔ parseInteger s = .error .overflow :=
      refusedWith_message_iff .overflow
    have hinvalid : RefusedWith s "invalid character in integer literal" ↔
        parseInteger s = .error .invalidCharacter :=
      refusedWith_message_iff .invalidCharacter
    rw [hmissing, hoverflow, hinvalid, hp]
    by_cases hr : rest = []
    · simp [hr]
    by_cases ho : greatestMagnitude negative < Decimal.value (rest.takeWhile isDigit)
    · simp [hr, ho]
    by_cases hd : rest.all isDigit = true
    · simp only [if_neg hr, if_neg ho, if_pos hd]
      simp [hr, ho]
    · simp only [if_neg hr, if_neg ho, if_neg hd]
      simp [hr, Nat.le_of_not_lt ho]

end ScriptBase

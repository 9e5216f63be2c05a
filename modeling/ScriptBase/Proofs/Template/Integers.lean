import ScriptBase.Proofs.Template.Padding

/-!
# Integers that are written and read

The numeral of an integer spells it. Blanks around the numeral and zeros behind its sign leave it
spelled, and a conversion adds nothing else. So an integer is read back from what a conversion
writes of it, whatever its flags, its width and its precision are, and from its plain text.

## Main results

* `ScriptBase.spells_ofInt`: the numeral of an integer spells it.
* `ScriptBase.Template.Spelling.Fills.spells`: so does the numeral in the field of a conversion.
* `ScriptBase.Template.integer_reads_back`: an integer is read back from what is written of it.
-/

namespace ScriptBase

open Ascii (isBlank isDigit zero space)

/-- The numeral of an integer is a sign, or none, and the digits of its magnitude. -/
theorem Decimal.exists_ofInt (n : ℤ) :
    ∃ sign : Sign, ofInt n = sign.text ++ ofNat n.natAbs ∧
      Sign.signed sign.isMinus n.natAbs = n := by
  cases n with
  | ofNat n => exact ⟨.none, rfl, rfl⟩
  | negSucc n => exact ⟨.minus, rfl, rfl⟩

/-- The numeral of an integer spells it. -/
theorem spells_ofInt (n : ℤ) : Spells (Decimal.ofInt n) n := by
  obtain ⟨sign, hn, hv⟩ := Decimal.exists_ofInt n
  have h := sign.spells (Decimal.ofNat_ne_nil n.natAbs) fun _ => Decimal.isDigit_of_mem_ofNat
  rwa [Decimal.value_ofNat, hv, ← hn] at h

namespace Template

variable {c : Spelling} {fill : ℕ} {n : ℤ} {out : Text}

/-- The numeral of an integer spells it also in the field of a conversion. -/
theorem Spelling.Fills.spells (h : c.Fills fill (Decimal.ofInt n) out) : Spells out n := by
  have hs : ∀ b ∈ List.replicate fill space, isBlank b = true := by
    intro b hb
    rw [List.eq_of_mem_replicate hb]
    rfl
  cases h with
  | left => exact (spells_ofInt n).append_blanks hs
  | right => exact (spells_ofInt n).blanks_append hs
  | @zeros _ _ _ sign rest hb hu =>
    obtain ⟨sign', hn, hv⟩ := Decimal.exists_ofInt n
    have hd : ∀ b ∈ Decimal.ofNat n.natAbs, isDigit b = true :=
      fun _ => Decimal.isDigit_of_mem_ofNat
    -- the zeros stand behind the sign of the numeral
    have ht : (sign.isMinus, rest) = (sign'.isMinus, Decimal.ofNat n.natAbs) := by
      rw [← Sign.takeSign_append_of_unsigned hu, ← hb, hn, Sign.takeSign_append sign' hd]
    obtain ⟨hm, rfl⟩ := Prod.mk.inj ht
    have hz : ∀ b ∈ List.replicate fill zero ++ Decimal.ofNat n.natAbs, isDigit b = true := by
      refine List.forall_mem_append.2 ⟨fun b hb => ?_, hd⟩
      rw [List.eq_of_mem_replicate hb]
      rfl
    have h := sign.spells
      (List.append_ne_nil_of_right_ne_nil _ (Decimal.ofNat_ne_nil n.natAbs)) hz
    rwa [Decimal.value_replicate_zero_append, Decimal.value_ofNat, hm, hv] at h

/-- A conversion with the letter `d` or `i` puts the numeral of an integer into its field. -/
theorem exists_format_integer [Platform] (hl : c.letter ∈ ("di" : Text)) (n : Int64) :
    ∃ out fill, format c.text [.integer n] = .ok out ∧
      c.Fills fill (Decimal.ofInt n.toInt) out := by
  have hl' : c.letter = 0x64 ∨ c.letter = 0x69 := by
    change c.letter ∈ [0x64, 0x69] at hl
    simpa using hl
  have hpad : format c.text [.integer n] =
      .ok (c.conversion.pad (decide (c.letter ∈ ("dif" : Text))) (Decimal.ofInt n.toInt)) := by
    rw [format_spelling, Conversion.apply, show c.conversion.letter = c.letter from rfl]
    obtain h | h := hl' <;>
      · rw [h]
        rfl
  exact ⟨_, _, hpad, fills_pad c _⟩

/-- An integer is read back from what a conversion with the letter `d` or `i` writes of it, and from
its plain text. Memory has no limit here: widths for which no string can be allocated are left out
of account. -/
theorem integer_reads_back [Platform] (hl : c.letter ∈ ("di" : Text)) (n : Int64) :
    (∃ out, format c.text [.integer n] = .ok out ∧ integerOf out = .ok n) ∧
      integerOf (Value.integer n).plain = .ok n := by
  constructor
  · obtain ⟨out, fill, ho, hf⟩ := exists_format_integer hl n
    exact ⟨out, ho, integerOf_eq_ok_iff.2 (parseInteger_eq_ok_iff.2 hf.spells)⟩
  · rw [Value.plain, Value.render]
    exact integerOf_eq_ok_iff.2 (parseInteger_eq_ok_iff.2 (spells_ofInt n.toInt))

open scoped ScriptBase.ReferencePlatform

/-- The least integer behind zeros, in a field that is wider than any numeral. -/
theorem integer_reads_back_least :
    ∃ out, format "%025.3i" [.integer Int64.minValue] = .ok out ∧
      integerOf out = .ok Int64.minValue := by
  let c : Spelling :=
    { flags := "0", width := "25", places := some "3", letter := 0x69
      isFlag_of_mem := List.all_eq_true.1 (by decide)
      isDigit_of_mem_width := List.all_eq_true.1 (by decide)
      head?_width_ne := by decide
      isDigit_of_mem_places := by
        rintro _ ⟨⟩
        exact List.all_eq_true.1 (by decide)
      endsAt_letter := ⟨rfl, nofun⟩ }
  exact (integer_reads_back (c := c) (by decide) Int64.minValue).1

end Template

end ScriptBase

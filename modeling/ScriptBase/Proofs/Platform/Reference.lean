import Mathlib.Data.List.Induction
import ScriptBase.Platform.Reference
import ScriptBase.Proofs.Floating.Numerals
import ScriptBase.Proofs.Text.Encoding
import ScriptBase.Text.Decode

/-!
# The reference platform is lawful

The two readers of the reference platform find a scalar value exactly where its encoding stands: the
first byte of an encoding announces how many bytes are behind it, and from these the number is put
together again. Where no encoding stands, the reader from left to right takes as many bytes as some
encoding could start with, since a start of two or three bytes goes on, if it does at all, with the
least continuation bytes.

## Main results

* `ScriptBase.ReferencePlatform.scalar?_eq_some_iff`: what a text starts with.
* `ScriptBase.ReferencePlatform.lastScalar?_eq_some_iff`: what a text ends with.
* `ScriptBase.ReferencePlatform.isBroken_take_brokenLength`: the broken sequence that is taken.
* `ScriptBase.ReferencePlatform.lawful`: the reference platform is lawful.
-/

namespace ScriptBase.ReferencePlatform

open Text

variable {b : UInt8} {s t : Text} {c : Char} {k n : ℕ}

/-! ### From bytes to a scalar value -/

/-- What a first byte announces, and the bits that it holds. -/
theorem lead?_eq_some {high : ℕ} (h : lead? b = some (k, high)) :
    (k = 0 ∧ b.toNat < 128 ∧ high = b.toNat) ∨
      (k = 1 ∧ 192 ≤ b.toNat ∧ b.toNat < 224 ∧ high = b.toNat - 192) ∨
      (k = 2 ∧ 224 ≤ b.toNat ∧ b.toNat < 240 ∧ high = b.toNat - 224) ∨
      (k = 3 ∧ 240 ≤ b.toNat ∧ b.toNat < 248 ∧ high = b.toNat - 240) := by
  have e80 : (0x80 : UInt8).toNat = 128 := rfl
  have ec0 : (0xc0 : UInt8).toNat = 192 := rfl
  have ee0 : (0xe0 : UInt8).toNat = 224 := rfl
  have ef0 : (0xf0 : UInt8).toNat = 240 := rfl
  have ef8 : (0xf8 : UInt8).toNat = 248 := rfl
  have hsub {least : UInt8} (hle : least.toNat ≤ b.toNat) :
      (b - least).toNat = b.toNat - least.toNat :=
    UInt8.toNat_sub_of_le _ _ (UInt8.le_iff_toNat_le.2 hle)
  unfold lead? at h
  simp only [UInt8.lt_iff_toNat_lt] at h
  split_ifs at h <;> simp only [Option.some.injEq, Prod.mk.injEq] at h
  · omega
  all_goals
    rw [hsub (by omega)] at h
    omega

/-- The next byte that is read is a continuation byte. -/
theorem continued?_succ {v w : ℕ} (h : continued? (k + 1) v s = some w) :
    ∃ b t, s = b :: t ∧ 128 ≤ b.toNat ∧ b.toNat < 192 ∧
      continued? k (v * 64 + (b.toNat - 128)) t = some w := by
  cases s with
  | nil => simp [continued?] at h
  | cons b t =>
    have e80 : (0x80 : UInt8).toNat = 128 := rfl
    rw [continued?] at h
    split at h
    · next hb =>
      obtain ⟨hle, hlt⟩ := isContinuation_iff.1 hb
      refine ⟨b, t, rfl, hle, hlt, ?_⟩
      rwa [UInt8.toNat_sub_of_le _ _ (by rw [UInt8.le_iff_toNat_le]; omega)] at h
    · simp at h

theorem ofNat_eq_of_eq_toNat (h : n = b.toNat) : UInt8.ofNat n = b := by
  simp [h]

/-- The scalar value that is read is encoded by the bytes that it is read from, as many as the first
byte announces. -/
theorem encodeChar_of_scalar? (h : scalar? b s = some (c, k)) :
    String.utf8EncodeChar c = b :: s.take k ∧ k ≤ s.length ∧ (lead? b).map Prod.fst = some k := by
  unfold scalar? at h
  split at h
  · simp at h
  next k' high hl =>
  split at h
  · simp at h
  next v hv =>
  split at h
  case isFalse => simp at h
  next hm =>
  simp only [Option.some.injEq, Prod.mk.injEq] at h
  obtain ⟨rfl, rfl⟩ := h
  rw [encodeChar_ofNat hm.2, hl]
  obtain ⟨hleast, -⟩ := hm
  rcases lead?_eq_some hl with ⟨rfl, hb, hh⟩ | ⟨rfl, hb, hb', hh⟩ | ⟨rfl, hb, hb', hh⟩ |
    ⟨rfl, hb, hb', hh⟩
  · simp only [continued?, Option.some.injEq] at hv
    rw [if_pos (by omega), ofNat_eq_of_eq_toNat (b := b) (by omega)]
    simp
  · obtain ⟨b₁, t, rfl, h₁, h₁', hv⟩ := continued?_succ hv
    simp only [continued?, Option.some.injEq] at hv
    simp only [leastWith] at hleast
    rw [if_neg (by omega), if_pos (by omega)]
    refine ⟨?_, by simp, rfl⟩
    rw [ofNat_eq_of_eq_toNat (b := b) (by omega), ofNat_eq_of_eq_toNat (b := b₁) (by omega)]
    rfl
  · obtain ⟨b₁, t, rfl, h₁, h₁', hv⟩ := continued?_succ hv
    obtain ⟨b₂, t, rfl, h₂, h₂', hv⟩ := continued?_succ hv
    simp only [continued?, Option.some.injEq] at hv
    simp only [leastWith] at hleast
    rw [if_neg (by omega), if_neg (by omega), if_pos (by omega)]
    refine ⟨?_, by simp, rfl⟩
    rw [ofNat_eq_of_eq_toNat (b := b) (by omega), ofNat_eq_of_eq_toNat (b := b₁) (by omega),
      ofNat_eq_of_eq_toNat (b := b₂) (by omega)]
    rfl
  · obtain ⟨b₁, t, rfl, h₁, h₁', hv⟩ := continued?_succ hv
    obtain ⟨b₂, t, rfl, h₂, h₂', hv⟩ := continued?_succ hv
    obtain ⟨b₃, t, rfl, h₃, h₃', hv⟩ := continued?_succ hv
    simp only [continued?, Option.some.injEq] at hv
    simp only [leastWith] at hleast
    rw [if_neg (by omega), if_neg (by omega), if_neg (by omega)]
    refine ⟨?_, by simp, rfl⟩
    rw [ofNat_eq_of_eq_toNat (b := b) (by omega), ofNat_eq_of_eq_toNat (b := b₁) (by omega),
      ofNat_eq_of_eq_toNat (b := b₂) (by omega), ofNat_eq_of_eq_toNat (b := b₃) (by omega)]
    rfl

/-! ### From a scalar value to bytes -/

/-- What a byte announces as the first one of a sequence. -/
theorem lead?_ofNat (h : n < 256) :
    lead? (UInt8.ofNat n) =
      if n < 128 then some (0, n)
      else if n < 192 then none
      else if n < 224 then some (1, n - 192)
      else if n < 240 then some (2, n - 224)
      else if n < 248 then some (3, n - 240)
      else none := by
  have hsub {m : UInt8} (hm : m.toNat ≤ n) : (UInt8.ofNat n - m).toNat = n - m.toNat := by
    have hle : m ≤ UInt8.ofNat n := by rwa [UInt8.le_iff_toNat_le, toNat_ofNat_of_lt h]
    rw [UInt8.toNat_sub_of_le _ _ hle, toNat_ofNat_of_lt h]
  have ec0 : (0xc0 : UInt8).toNat = 192 := rfl
  have ee0 : (0xe0 : UInt8).toNat = 224 := rfl
  have ef0 : (0xf0 : UInt8).toNat = 240 := rfl
  simp only [lead?, UInt8.lt_iff_toNat_lt, toNat_ofNat_of_lt h]
  change (if n < 128 then _ else if n < 192 then _ else if n < 224 then _
    else if n < 240 then _ else if n < 248 then _ else _) = _
  split_ifs
  · rfl
  · rfl
  · rw [hsub (by omega), ec0]
  · rw [hsub (by omega), ee0]
  · rw [hsub (by omega), ef0]
  · rfl

/-- Six bits are read from a continuation byte. -/
theorem continued?_cons {low : ℕ} (h : low < 64) (k v : ℕ) (s : Text) :
    continued? (k + 1) v (UInt8.ofNat (low + 128) :: s) = continued? k (v * 64 + low) s := by
  have hb : (UInt8.ofNat (low + 128)).toNat = low + 128 := toNat_ofNat_of_lt (by omega)
  have e80 : (0x80 : UInt8).toNat = 128 := rfl
  have hle : (0x80 : UInt8) ≤ UInt8.ofNat (low + 128) := by
    rw [UInt8.le_iff_toNat_le]
    omega
  rw [continued?, if_pos (isContinuation_ofNat_add h), UInt8.toNat_sub_of_le _ _ hle, hb, e80,
    Nat.add_sub_cancel]

/-- The bytes of a sequence by which a scalar value is read, whatever stands behind them. -/
theorem scalar?_append {u : Text} (high : ℕ) (t : Text) (hl : lead? b = some (u.length, high))
    (hc : continued? u.length high (u ++ t) = some c.toNat) (hm : leastWith u.length ≤ c.toNat) :
    scalar? b (u ++ t) = some (c, u.length) := by
  have hv : leastWith u.length ≤ c.toNat ∧ c.toNat.isValidChar := ⟨hm, c.valid⟩
  simp only [scalar?, hl, hc]
  rw [if_pos hv, Char.ofNat_toNat]

/-- A scalar value is read from its encoding, whatever stands behind that. -/
theorem exists_scalar?_encodeChar (c : Char) (t : Text) :
    ∃ b u, String.utf8EncodeChar c = b :: u ∧ scalar? b (u ++ t) = some (c, u.length) := by
  have hlt := toNat_lt c
  rw [encodeChar_eq]
  -- one case for each length of a sequence
  split
  · next h =>
    refine ⟨_, [], rfl, scalar?_append c.toNat t ?_ rfl (Nat.zero_le _)⟩
    rw [lead?_ofNat (by omega), if_pos (by omega)]
    rfl
  split
  · next h₀ h₁ =>
    refine ⟨_, _, rfl, scalar?_append (c.toNat / 64 % 32) t ?_ ?_ ?_⟩
    · rw [lead?_ofNat (by omega), if_neg (by omega), if_neg (by omega), if_pos (by omega),
        Nat.add_sub_cancel]
      rfl
    · rw [List.length_singleton, List.singleton_append, continued?_cons (by omega), continued?]
      exact congrArg some (by omega)
    · rw [List.length_singleton, leastWith]
      omega
  split
  · next h₀ h₁ h₂ =>
    refine ⟨_, _, rfl, scalar?_append (c.toNat / 4096 % 16) t ?_ ?_ ?_⟩
    · rw [lead?_ofNat (by omega), if_neg (by omega), if_neg (by omega), if_neg (by omega),
        if_pos (by omega), Nat.add_sub_cancel]
      rfl
    · simp only [List.length_cons, List.length_nil, List.cons_append, List.nil_append]
      rw [continued?_cons (by omega), continued?_cons (by omega), continued?]
      exact congrArg some (by omega)
    · simp only [List.length_cons, List.length_nil, leastWith]
      omega
  · next h₀ h₁ h₂ =>
    refine ⟨_, _, rfl, scalar?_append (c.toNat / 262144 % 8) t ?_ ?_ ?_⟩
    · rw [lead?_ofNat (by omega), if_neg (by omega), if_neg (by omega), if_neg (by omega),
        if_neg (by omega), if_pos (by omega), Nat.add_sub_cancel]
      rfl
    · simp only [List.length_cons, List.length_nil, List.cons_append, List.nil_append]
      rw [continued?_cons (by omega), continued?_cons (by omega), continued?_cons (by omega),
        continued?]
      exact congrArg some (by omega)
    · simp only [List.length_cons, List.length_nil, leastWith]
      omega

/-! ### What a text starts with -/

/-- A scalar value is read exactly if its encoding stands at the start. -/
theorem scalar?_eq_some_iff :
    scalar? b s = some (c, k) ↔
      String.utf8EncodeChar c <+: b :: s ∧ (String.utf8EncodeChar c).length = k + 1 := by
  constructor
  · intro h
    obtain ⟨hc, hk, -⟩ := encodeChar_of_scalar? h
    rw [hc, List.length_cons, List.length_take_of_le hk]
    exact ⟨(List.prefix_cons_inj b).2 (List.take_prefix k s), rfl⟩
  · rintro ⟨⟨t, ht⟩, hk⟩
    obtain ⟨d, u, hc, hu⟩ := exists_scalar?_encodeChar c t
    rw [hc, List.cons_append] at ht
    obtain ⟨rfl, rfl⟩ := List.cons.inj ht
    rw [hc, List.length_cons] at hk
    rw [hu, Nat.succ.inj hk]

theorem length_encodeChar_eq (c : Char) :
    (String.utf8EncodeChar c).length = (String.utf8EncodeChar c).length - 1 + 1 :=
  (Nat.sub_add_cancel (length_encodeChar_pos c)).symm

/-- The first character is a scalar value exactly if its encoding stands at the start. -/
theorem firstGlyph_eq_scalar_iff :
    firstGlyph (b :: s) = .scalar c ↔ String.utf8EncodeChar c <+: b :: s := by
  constructor
  · intro h
    rw [firstGlyph] at h
    split at h
    · next hs =>
      obtain rfl := Glyph.scalar.inj h
      exact (scalar?_eq_some_iff.1 hs).1
    · cases h
  · intro h
    rw [firstGlyph, scalar?_eq_some_iff.2 ⟨h, length_encodeChar_eq c⟩]

/-! ### Broken sequences -/

/-- A number whose low bits are taken off is that of a scalar value too, if the bits are those of
some continuation bytes of its encoding and not of all of them. -/
theorem isValidChar_div_mul {v m : ℕ} (h : v.isValidChar)
    (hm : m = 64 ∨ m = 4096 ∧ 0x10000 ≤ v) : (v / m * m).isValidChar := by
  unfold Nat.isValidChar at *
  obtain rfl | ⟨rfl, hv⟩ := hm <;> omega

/-- A start of an encoding, two bytes of it at least, goes on with the least continuation bytes to
the encoding of a scalar value. -/
theorem exists_encodeChar_eq_take_append (c : Char) (hn : 2 ≤ n)
    (hlt : n < (String.utf8EncodeChar c).length) :
    ∃ d, String.utf8EncodeChar d = (String.utf8EncodeChar c).take n ++
      List.replicate ((String.utf8EncodeChar c).length - n) 0x80 := by
  have hc : c.toNat.isValidChar := c.valid
  have hmax := toNat_lt c
  rw [encodeChar_eq] at hlt ⊢
  split_ifs at hlt ⊢ <;> simp only [List.length_cons, List.length_nil] at hlt
  · omega
  · omega
  · -- the first two of three bytes
    obtain rfl : n = 2 := by omega
    refine ⟨Char.ofNat (c.toNat / 64 * 64), ?_⟩
    have h₁ : c.toNat / 64 * 64 / 4096 % 16 = c.toNat / 4096 % 16 := by omega
    have h₂ : c.toNat / 64 * 64 / 64 % 64 = c.toNat / 64 % 64 := by omega
    rw [encodeChar_ofNat (isValidChar_div_mul hc (.inl rfl)), if_neg (by omega),
      if_neg (by omega), if_pos (by omega), h₁, h₂, Nat.mul_mod_left]
    rfl
  · obtain rfl | rfl : n = 2 ∨ n = 3 := by omega
    · -- the first two of four bytes
      refine ⟨Char.ofNat (c.toNat / 4096 * 4096), ?_⟩
      have h₁ : c.toNat / 4096 * 4096 / 262144 % 8 = c.toNat / 262144 % 8 := by omega
      have h₂ : c.toNat / 4096 * 4096 / 4096 % 64 = c.toNat / 4096 % 64 := by omega
      have h₃ : c.toNat / 4096 * 4096 / 64 % 64 = 0 := by omega
      have h₄ : c.toNat / 4096 * 4096 % 64 = 0 := by omega
      rw [encodeChar_ofNat (isValidChar_div_mul hc (.inr ⟨rfl, by omega⟩)), if_neg (by omega),
        if_neg (by omega), if_neg (by omega), h₁, h₂, h₃, h₄]
      rfl
    · -- the first three of four bytes
      refine ⟨Char.ofNat (c.toNat / 64 * 64), ?_⟩
      have h₁ : c.toNat / 64 * 64 / 262144 % 8 = c.toNat / 262144 % 8 := by omega
      have h₂ : c.toNat / 64 * 64 / 4096 % 64 = c.toNat / 4096 % 64 := by omega
      have h₃ : c.toNat / 64 * 64 / 64 % 64 = c.toNat / 64 % 64 := by omega
      rw [encodeChar_ofNat (isValidChar_div_mul hc (.inl rfl)), if_neg (by omega),
        if_neg (by omega), if_neg (by omega), h₁, h₂, h₃, Nat.mul_mod_left]
      rfl

/-- A sequence that can go on starts the encoding of a scalar value. -/
theorem startsScalar_of_canGoOn (h : canGoOn b s n = true) :
    StartsScalar (b :: s.take n) ∧ n ≤ s.length := by
  rw [canGoOn] at h
  split at h
  · cases h
  next k high hl =>
  simp only [Bool.and_eq_true, decide_eq_true_eq, Option.isSome_iff_exists] at h
  obtain ⟨⟨hk, hn⟩, ⟨c, k'⟩, hc⟩ := h
  obtain ⟨he, -, hk'⟩ := encodeChar_of_scalar? hc
  rw [hl] at hk'
  obtain rfl : k = k' := Option.some.inj hk'
  refine ⟨⟨c, ?_⟩, hn⟩
  have ht : (s.take n).take k = s.take n := List.take_of_length_le (by
    rw [List.length_take]
    omega)
  rw [he, List.prefix_cons_inj, List.take_append, ht]
  exact List.prefix_append _ _

/-- The start of an encoding of more bytes, two bytes of it at least, can go on. -/
theorem canGoOn_of_isPrefix (hn : 0 < n) (hs : n ≤ s.length)
    (h : b :: s.take n <+: String.utf8EncodeChar c)
    (hlt : n + 1 < (String.utf8EncodeChar c).length) : canGoOn b s n = true := by
  have hlen : (b :: s.take n).length = n + 1 := by
    rw [List.length_cons, List.length_take_of_le hs]
  obtain ⟨d, hd⟩ := exists_encodeChar_eq_take_append c (by omega) hlt
  have ht : (String.utf8EncodeChar c).take (n + 1) = b :: s.take n := by
    rw [List.prefix_iff_eq_take.1 h, hlen]
  obtain ⟨k, hk⟩ := Nat.exists_eq_add_of_lt hlt
  rw [ht, List.cons_append, show (String.utf8EncodeChar c).length - (n + 1) = k + 1 by omega] at hd
  have hscalar : scalar? b (s.take n ++ List.replicate (k + 1) 0x80) = some (d, n + (k + 1)) := by
    refine scalar?_eq_some_iff.2 ⟨hd ▸ List.prefix_rfl, ?_⟩
    rw [hd, List.length_cons, List.length_append, List.length_take_of_le hs, List.length_replicate]
  have hl := (encodeChar_of_scalar? hscalar).2.2
  obtain ⟨⟨k', high⟩, hl, rfl⟩ := Option.map_eq_some_iff.1 hl
  rw [canGoOn, hl]
  dsimp only
  rw [Nat.add_sub_cancel_left, hscalar]
  simp only [Option.isSome_some, Bool.and_true, Bool.and_eq_true, decide_eq_true_eq]
  omega

/-- Where no encoding stands, the bytes that are taken are a broken sequence. -/
theorem isBroken_take_brokenLength (h : ∀ c, ¬ String.utf8EncodeChar c <+: b :: s) :
    IsBroken ((b :: s).take (brokenLength b s)) (b :: s) where
  isPrefix := List.take_prefix _ _
  ne_nil := by
    rw [brokenLength]
    split_ifs <;> simp
  starts := by
    rw [brokenLength]
    split_ifs with h₂ h₁
    · exact .inr (startsScalar_of_canGoOn h₂).1
    · exact .inr (startsScalar_of_canGoOn h₁).1
    · exact .inl rfl
  longest other ho := by
    rintro ⟨c, hc⟩
    rcases other with _ | ⟨d, other⟩
    · exact Nat.zero_le _
    obtain ⟨rfl, ho'⟩ := List.cons_prefix_cons.1 ho
    have hle := ho'.length_le
    have ht := List.prefix_iff_eq_take.1 ho'
    have hfour := length_encodeChar_le c
    -- the encoding itself does not stand at the start, so it goes on
    have hlt : other.length + 1 < (String.utf8EncodeChar c).length := by
      refine Nat.lt_of_le_of_ne hc.length_le fun he => h c ?_
      rwa [← hc.eq_of_length he]
    have hgo (hpos : 0 < other.length) : canGoOn d s other.length = true :=
      canGoOn_of_isPrefix hpos hle (by rwa [← ht]) hlt
    rw [List.length_take, List.length_cons, List.length_cons, brokenLength]
    split_ifs with h₂ h₁
    · omega
    · have : other.length ≠ 2 := fun he => h₂ (by rw [← he]; exact hgo (by omega))
      omega
    · have : other.length ≠ 2 := fun he => h₂ (by rw [← he]; exact hgo (by omega))
      have : other.length ≠ 1 := fun he => h₁ (by rw [← he]; exact hgo (by omega))
      omega

theorem isBroken_of_firstGlyph {bytes : Text} (h : firstGlyph (b :: s) = .malformed bytes) :
    IsBroken bytes (b :: s) := by
  rw [firstGlyph] at h
  split at h
  · cases h
  next hs =>
  rw [← Glyph.malformed.inj h]
  refine isBroken_take_brokenLength fun c hc => ?_
  rw [scalar?_eq_some_iff.2 ⟨hc, length_encodeChar_eq c⟩] at hs
  cases hs

/-! ### What a text ends with -/

section Step

variable {reach : ℕ} {passed : Text}

@[simp] theorem lastScalar?_nil (reach : ℕ) (passed : Text) :
    lastScalar? reach passed [] = none := by
  rw [lastScalar?.eq_def]

/-- Beyond the bytes that it may go back over, the reading finds nothing. -/
theorem lastScalar?_zero_cons (h : isContinuation b = true) (passed front : Text) :
    lastScalar? 0 passed (b :: front) = none := by
  rw [lastScalar?.eq_def]
  exact if_pos h

theorem lastScalar?_succ_cons (h : isContinuation b = true) (reach : ℕ) (passed front : Text) :
    lastScalar? (reach + 1) passed (b :: front) = lastScalar? reach (b :: passed) front := by
  rw [lastScalar?.eq_def]
  exact if_pos h

/-- At the first byte that is no continuation byte, a scalar value is found if the sequence that
starts there takes all bytes that were passed. -/
theorem lastScalar?_cons_eq_some_iff (h : isContinuation b = false) {front : Text} :
    lastScalar? reach passed (b :: front) = some (c, k) ↔
      scalar? b passed = some (c, k) ∧ k = passed.length := by
  rw [lastScalar?.eq_def]
  simp only [h]
  cases hs : scalar? b passed with
  | none => simp
  | some read =>
    simp only [Bool.false_eq_true, if_false, Option.ite_none_right_eq_some]
    constructor
    · rintro ⟨hk, ⟨⟩⟩
      exact ⟨rfl, hk⟩
    · rintro ⟨⟨⟩, hk⟩
      exact ⟨hk, rfl⟩

end Step

/-- A reading that has gone back over some bytes finds a scalar value exactly if these are the last
ones of its encoding and the others, at least one, stand in front of them. -/
theorem lastScalar?_eq_some_iff_exists {reach : ℕ} {passed : Text}
    (hreach : 3 ≤ passed.length + reach) :
    lastScalar? reach passed s.reverse = some (c, k) ↔
      (String.utf8EncodeChar c).length = k + 1 ∧
        ∃ w, w ≠ [] ∧ String.utf8EncodeChar c = w ++ passed ∧ w <:+ s := by
  induction s using List.reverseRecOn generalizing reach passed with
  | nil =>
    rw [List.reverse_nil, lastScalar?_nil]
    refine iff_of_false (fun h => by cases h) ?_
    rintro ⟨-, w, hn, -, hw⟩
    exact hn (List.suffix_nil.1 hw)
  | append_singleton s b ih =>
    -- the byte `b` is one of the encoding, and those in front of it may be none
    have hstep : (∃ w, w ≠ [] ∧ String.utf8EncodeChar c = w ++ passed ∧ w <:+ s ++ [b]) ↔
        ∃ w, String.utf8EncodeChar c = w ++ b :: passed ∧ w <:+ s := by
      constructor
      · rintro ⟨_, hn, hc, hs⟩
        obtain rfl | ⟨w, rfl, hw⟩ := List.suffix_concat_iff.1 hs
        · exact absurd rfl hn
        · exact ⟨w, by rwa [List.append_assoc] at hc, hw⟩
      · rintro ⟨w, hc, hw⟩
        exact ⟨w ++ [b], by simp, by rwa [List.append_assoc],
          List.suffix_concat_iff.2 (.inr ⟨w, rfl, hw⟩)⟩
    rw [hstep, List.reverse_append, List.reverse_singleton, List.singleton_append]
    rcases hb : isContinuation b with _ | _
    · rw [lastScalar?_cons_eq_some_iff hb, scalar?_eq_some_iff]
      constructor
      · rintro ⟨⟨hp, hlen⟩, hk⟩
        refine ⟨hlen, [], hp.eq_of_length ?_, List.nil_suffix⟩
        rw [hlen, hk, List.length_cons]
      · rintro ⟨hlen, w, hc, -⟩
        rw [(eq_nil_iff_of_encodeChar_eq hc).2 hb, List.nil_append] at hc
        refine ⟨⟨hc ▸ List.prefix_rfl, hlen⟩, ?_⟩
        rw [hc, List.length_cons] at hlen
        exact (Nat.succ.inj hlen).symm
    · -- at least one byte is in front of a continuation byte
      have hn {w : Text} (hc : String.utf8EncodeChar c = w ++ b :: passed) : w ≠ [] := by
        rw [ne_eq, eq_nil_iff_of_encodeChar_eq hc, hb]
        decide
      cases reach with
      | zero =>
        rw [lastScalar?_zero_cons hb]
        refine iff_of_false (fun h => by cases h) ?_
        rintro ⟨-, w, hc, -⟩
        have hpos := List.length_pos_iff.2 (hn hc)
        have hfour := c.utf8Size_le_four
        have hlen := congrArg List.length hc
        rw [String.length_utf8EncodeChar, List.length_append, List.length_cons] at hlen
        omega
      | succ reach =>
        rw [lastScalar?_succ_cons hb, ih (by rw [List.length_cons]; omega)]
        exact and_congr_right fun _ => exists_congr fun w => and_iff_right_of_imp fun h => hn h.1

/-- A scalar value is read from the end exactly if its encoding stands there. -/
theorem lastScalar?_eq_some_iff :
    lastScalar? 3 [] s.reverse = some (c, k) ↔
      String.utf8EncodeChar c <:+ s ∧ (String.utf8EncodeChar c).length = k + 1 := by
  rw [lastScalar?_eq_some_iff_exists (Nat.le_refl 3), and_comm]
  refine and_congr_left fun _ => ⟨?_, fun h => ?_⟩
  · rintro ⟨w, -, hc, hw⟩
    rw [List.append_nil] at hc
    rwa [hc]
  · exact ⟨_, String.utf8EncodeChar_ne_nil, (List.append_nil _).symm, h⟩

/-- The last character is a scalar value exactly if its encoding stands at the end. -/
theorem lastGlyph_eq_scalar_iff : lastGlyph s = .scalar c ↔ String.utf8EncodeChar c <:+ s := by
  constructor
  · intro h
    rw [lastGlyph] at h
    split at h
    · next hs =>
      obtain rfl := Glyph.scalar.inj h
      exact (lastScalar?_eq_some_iff.1 hs).1
    · cases h
  · intro h
    rw [lastGlyph, lastScalar?_eq_some_iff.2 ⟨h, length_encodeChar_eq c⟩]

/-! ### The laws -/

/-- The spaces among the ASCII characters. -/
theorem has_spaces_iff_of_lt (h : n < 0x80) :
    spaces.has n = true ↔ 9 ≤ n ∧ n ≤ 13 ∨ 28 ≤ n ∧ n ≤ 32 := by
  simp only [Ranges.has, spaces, List.any_cons, List.any_nil, Bool.or_eq_true, Bool.and_eq_true,
    decide_eq_true_eq, Bool.or_false]
  omega

/-- A numeral that is not too long has not too many places. -/
theorem unprinted?_eq_none {places : ℕ} {x : Binary64}
    (h : (x.fixedText places).length ≤ longestPrintable) : unprinted? places x = none := by
  rw [unprinted?]
  refine if_neg fun hx => ?_
  rw [Bool.and_eq_true, decide_eq_true_eq] at hx
  have hlt := Ratio.lt_length_fixed places x.magnitude
  rw [Floating.fixedText_of_isFinite hx.1, List.length_append, longestPrintable] at h
  omega

/-- The reference platform is lawful. -/
instance lawful : LawfulPlatform where
  firstGlyph_eq_scalar_iff _ _ _ := firstGlyph_eq_scalar_iff
  isBroken_of_firstGlyph _ _ _ := isBroken_of_firstGlyph
  lastGlyph_eq_scalar_iff _ _ _ := lastGlyph_eq_scalar_iff
  nextStart_eq s offset _ := by
    change offset + (firstGlyph ((s.take (s.length : ℤ).toNat).drop offset)).bytes.length = _
    rw [Int.toNat_natCast, List.take_length]
    rfl
  isSpace_iff_of_lt _ := has_spaces_iff_of_lt
  isSpace_nextLine := by decide
  unprinted?_eq_none _ _ := unprinted?_eq_none

/-- A sequence that is broken off is one character, and so is each byte that starts no sequence. -/
example : glyphs [0xe2, 0x82, 0xff, 0xc0, 0x61] =
    [.malformed [0xe2, 0x82], .malformed [0xff], .malformed [0xc0], .scalar 'a'] := by
  decide +kernel

end ScriptBase.ReferencePlatform

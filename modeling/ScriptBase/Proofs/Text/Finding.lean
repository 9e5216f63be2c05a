import Mathlib.Data.List.Infix
import ScriptBase.Proofs.Platform.Reference
import ScriptBase.Proofs.Text.Characters
import ScriptBase.Text.Find

/-!
# Finding by bytes and by characters

A needle is looked for by its bytes, and the answer counts characters. A well-formed needle starts
with no continuation byte, so where its bytes occur, a character starts, and its characters are read
there. Hence the first occurrence of its bytes is the first occurrence of its characters.

A needle of one byte need not be well-formed. A byte that is not ASCII is no character, but part of
the encodings of some, and it is found in these: the answer is the index of the first character
whose encoding holds the byte, or the index behind it if the byte is a continuation byte. A number
that is no scalar value is looked for as the replacement character.

The text has to be addressable. An offset that is taken for a negative number counts no characters,
and what is found there is found at zero (`ScriptBase.Text.find_eq_zero_of_le`).

## Main definitions

* `ScriptBase.FirstIndex`: the answers of a search for the least index with a property.
* `ScriptBase.Text.codes`: the numbers of the characters of a text.

## Main results

* `ScriptBase.Text.firstIndex_find`: from occurrences of bytes to a property of characters.
* `ScriptBase.Text.firstIndex_find_of_wellFormed`: where a well-formed needle is found.
* `ScriptBase.Text.find_text`: the same, and texts that start with a needle.
* `ScriptBase.Text.find_character`: where a needle of one character is found.
* `ScriptBase.Text.find_what_is_absent`: needles that are found though they are no character.
-/

namespace ScriptBase

/-! ### Searches -/

/-- The answer of a search for the least index with a property: that index, and `-1` if no index
has the property. -/
inductive FirstIndex (p : ℕ → Prop) : ℤ → Prop
  | found {i : ℕ} (hi : p i) (hlt : ∀ j < i, ¬ p j) : FirstIndex p i
  | absent (h : ∀ i, ¬ p i) : FirstIndex p (-1)

namespace FirstIndex

variable {p q : ℕ → Prop} {answer : ℤ}

/-- The answer is `-1` exactly if no index has the property. -/
theorem eq_neg_one_iff (h : FirstIndex p answer) : answer = -1 ↔ ∀ i, ¬ p i := by
  cases h with
  | @found i hi => exact ⟨fun h => absurd h (by omega), fun h => absurd hi (h i)⟩
  | absent h => exact ⟨fun _ => h, fun _ => rfl⟩

theorem of_iff (h : FirstIndex p answer) (hpq : ∀ i, p i ↔ q i) : FirstIndex q answer := by
  obtain rfl : p = q := funext fun i => propext (hpq i)
  exact h

end FirstIndex

namespace Text

variable {s needle : Text} {offset : ℕ}

/-! ### Occurrences of bytes -/

/-- The offset that is found is the first at which the needle occurs. -/
theorem prefix_drop_of_offsetOf? (h : offsetOf? needle s = some offset) :
    needle <+: s.drop offset ∧ ∀ j < offset, ¬ needle <+: s.drop j := by
  induction s generalizing offset with
  | nil =>
    rw [offsetOf?] at h
    split at h
    · next hn =>
      obtain rfl := Option.some.inj h
      rw [List.isEmpty_iff.1 hn]
      exact ⟨List.nil_prefix, fun j hj => absurd hj j.not_lt_zero⟩
    · cases h
  | cons b s ih =>
    rw [offsetOf?] at h
    split at h
    · next hp =>
      obtain rfl := Option.some.inj h
      exact ⟨List.isPrefixOf_iff_prefix.1 hp, fun j hj => absurd hj j.not_lt_zero⟩
    · next hp =>
      obtain ⟨offset, ho, rfl⟩ := Option.map_eq_some_iff.1 h
      obtain ⟨hf, hlt⟩ := ih ho
      refine ⟨hf, fun j hj => ?_⟩
      cases j with
      | zero => exact mt List.isPrefixOf_iff_prefix.2 hp
      | succ j => exact hlt j (Nat.lt_of_succ_lt_succ hj)

/-- The needle is found in the text. -/
theorem offsetOf?_le (h : offsetOf? needle s = some offset) : offset ≤ s.length := by
  obtain ⟨hp, hlt⟩ := prefix_drop_of_offsetOf? h
  by_contra hle
  rw [List.drop_eq_nil_of_le (by omega), List.prefix_nil] at hp
  exact hlt s.length (by omega) (by rw [hp]; exact List.nil_prefix)

/-- If no offset is found, the needle occurs nowhere. -/
theorem not_prefix_drop_of_offsetOf? (h : offsetOf? needle s = none) (j : ℕ) :
    ¬ needle <+: s.drop j := by
  induction s generalizing j with
  | nil =>
    rw [offsetOf?] at h
    split at h
    · cases h
    · next hn =>
      rw [List.drop_nil, List.prefix_nil]
      exact mt List.isEmpty_iff.2 hn
  | cons b s ih =>
    rw [offsetOf?] at h
    split at h
    · cases h
    · next hp =>
      cases j with
      | zero => exact mt List.isPrefixOf_iff_prefix.2 hp
      | succ j => exact ih (Option.map_eq_none_iff.1 h) j

/-- A needle that is not empty stands behind as many bytes as its offset says. -/
theorem exists_eq_append_of_prefix_drop (hn : needle ≠ []) (h : needle <+: s.drop offset) :
    ∃ u v, s = u ++ (needle ++ v) ∧ u.length = offset := by
  obtain ⟨v, hv⟩ := h
  have hlt : offset < s.length := by
    by_contra hle
    rw [List.drop_eq_nil_of_le (Nat.le_of_not_lt hle)] at hv
    exact hn (List.append_eq_nil_iff.1 hv).1
  exact ⟨s.take offset, v, by rw [hv, List.take_append_drop],
    List.length_take_of_le (Nat.le_of_lt hlt)⟩

theorem singleton_prefix_drop_iff {α : Type} {x : α} {xs : List α} {i : ℕ} :
    [x] <+: xs.drop i ↔ xs[i]? = some x := by
  rw [← List.head?_drop]
  cases xs.drop i with
  | nil => simp
  | cons y ys => simp [eq_comm]

/-- A byte in a row of characters is a byte of one of them. -/
theorem exists_bytes_eq_of_getElem? {b : UInt8} {gs : List Glyph}
    (h : (ofGlyphs gs)[offset]? = some b) :
    ∃ i g x y, gs[i]? = some g ∧ g.bytes = x ++ b :: y ∧
      offset = (ofGlyphs (gs.take i)).length + x.length := by
  induction gs generalizing offset with
  | nil => cases h
  | cons g gs ih =>
    rw [ofGlyphs_cons] at h
    rcases Nat.lt_or_ge offset g.bytes.length with hlt | hle
    · rw [List.getElem?_append_left hlt] at h
      refine ⟨0, g, g.bytes.take offset, g.bytes.drop (offset + 1), rfl, ?_, ?_⟩
      · rw [List.getElem?_eq_getElem hlt] at h
        rw [← Option.some.inj h, ← List.drop_eq_getElem_cons hlt, List.take_append_drop]
      · rw [List.length_take_of_le (Nat.le_of_lt hlt)]
        exact (Nat.zero_add _).symm
    · rw [List.getElem?_append_right hle] at h
      obtain ⟨i, g', x, y, hi, hx, ho⟩ := ih h
      refine ⟨i + 1, g', x, y, hi, hx, ?_⟩
      rw [List.take_succ_cons, ofGlyphs_cons, List.length_append]
      omega

section Platform

variable [Platform]

/-- A needle is not found exactly if its bytes occur nowhere. -/
theorem find_eq_neg_one_iff : s.find needle = -1 ↔ ∀ j, ¬ needle <+: s.drop j := by
  rw [find, find?]
  cases ho : offsetOf? needle s with
  | none => exact iff_of_true rfl (not_prefix_drop_of_offsetOf? ho)
  | some offset =>
    exact iff_of_false (fun h => by cases h) fun h => h offset (prefix_drop_of_offsetOf? ho).1

theorem find_singleton_eq_neg_one_iff {b : UInt8} : s.find [b] = -1 ↔ b ∉ s := by
  simp only [find_eq_neg_one_iff, singleton_prefix_drop_iff, List.mem_iff_getElem?, not_exists]

/-- The empty needle is found at zero. -/
theorem find_nil (s : Text) : s.find [] = 0 := by
  rw [find, find?, offsetOf?_nil_needle, Option.map_some, charIndex, Nat.zero_min,
    narrowed_of_lt (n := 0) (by decide)]
  exact congrArg Int.ofNat (startsWithin.eq_1 ..)

/-- What starts at an offset that is taken for a negative number is found at zero. -/
theorem find_eq_zero_of_le (ho : offsetOf? needle s = some offset) (hle : 2 ^ 31 ≤ offset)
    (hlt : offset < 2 ^ 32) : s.find needle = 0 := by
  have hmin : min offset s.length = offset := Nat.min_eq_left (offsetOf?_le ho)
  rw [find, find?, ho, Option.map_some, charIndex_of_le_min (by omega) (by omega)]
  rfl

/-- The numbers of the characters of a text. -/
def codes (s : Text) : List ℤ := s.decode.map Glyph.number

theorem codes_getElem?_eq_some_iff (hs : s.Addressable) {i : ℕ} {c : Char} :
    s.codes[i]? = some (c.toNat : ℤ) ↔ s.glyphs[i]? = some (.scalar c) := by
  have hg (g : Glyph) : g.number = c.toNat ↔ g = .scalar c := by
    cases g with
    | malformed bytes => exact ⟨fun h => absurd h (by rw [Glyph.number]; omega), nofun⟩
    | scalar d =>
      rw [Glyph.number, Int.natCast_inj, Glyph.scalar.injEq, ← Char.toNat_inj]
  rw [codes, decode_eq hs, List.getElem?_map, Option.map_eq_some_iff]
  simp only [hg, exists_eq_right]

/-- Only scalar values are the numbers of characters. -/
theorem isValidChar_of_mem_codes {n : ℕ} (h : (n : ℤ) ∈ s.codes) : n.isValidChar := by
  obtain ⟨g, -, hg⟩ := List.mem_map.1 h
  cases g with
  | malformed bytes => exact absurd hg (by rw [Glyph.number]; omega)
  | scalar c =>
    rw [Glyph.number, Int.natCast_inj] at hg
    rw [← hg]
    exact c.valid

section Lawful

variable [LawfulPlatform]

/-- If the characters at which the bytes of a needle occur have a property, and the bytes occur up
to each character that has it, then the answer is the first character with the property. -/
theorem firstIndex_find (hs : s.Addressable) {p : ℕ → Prop}
    (hfound : ∀ offset, needle <+: s.drop offset → p (s.startsBefore offset))
    (hoccurs : ∀ i, p i → ∃ offset, needle <+: s.drop offset ∧ s.startsBefore offset ≤ i) :
    FirstIndex p (s.find needle) := by
  rw [find, find?]
  cases ho : offsetOf? needle s with
  | none =>
    refine .absent fun i hi => ?_
    obtain ⟨offset, hp, -⟩ := hoccurs i hi
    exact not_prefix_drop_of_offsetOf? ho offset hp
  | some offset =>
    obtain ⟨hf, hfirst⟩ := prefix_drop_of_offsetOf? ho
    dsimp only [Option.map_some]
    rw [charIndex_eq_startsBefore hs]
    refine .found (hfound offset hf) fun j hj hp => ?_
    obtain ⟨other, hother, hle⟩ := hoccurs j hp
    have hmono := s.startsBefore_mono (Nat.le_of_not_lt fun hlt => hfirst other hlt hother)
    omega

/-! ### Well-formed needles -/

/-- The answer for a well-formed needle is the first index at which its characters occur. -/
theorem firstIndex_find_of_wellFormed (hs : s.Addressable) (hn : needle.WellFormed) :
    FirstIndex (fun i => needle.glyphs <+: s.glyphs.drop i) (s.find needle) := by
  rcases eq_or_ne needle [] with rfl | hne
  · rw [find_nil]
    exact .found List.nil_prefix fun j hj => absurd hj j.not_lt_zero
  refine firstIndex_find hs (fun offset h => ?_) fun i hi => ?_
  · -- what stands in front of the needle ends with a character
    obtain ⟨u, v, rfl, rfl⟩ := exists_eq_append_of_prefix_drop hne h
    have hv := hn.noContinuationFirst_append hne v
    have hu : u.glyphs.length ≤ (u ++ (needle ++ v)).glyphs.length := by
      rw [hv.glyphs_append, List.length_append]
      exact Nat.le_add_right _ _
    have hc := startsBefore_charStart hu
    rw [hv.charStart_length] at hc
    rw [hc, hv.glyphs_append, List.drop_left, hn.glyphs_append]
    exact List.prefix_append _ _
  · obtain ⟨gs, hgs⟩ := hi
    refine ⟨s.charStart i, ?_, ?_⟩
    · rw [drop_charStart, ← hgs, ofGlyphs_append, ofGlyphs_glyphs]
      exact List.prefix_append _ _
    · refine (startsBefore_charStart (Nat.le_of_not_lt fun hlt => hne ?_)).le
      rw [List.drop_eq_nil_of_le (Nat.le_of_lt hlt)] at hgs
      exact glyphs_eq_nil_iff.1 (List.append_eq_nil_iff.1 hgs).1

/-- The encoding of a scalar value is found at the first character that is this scalar value. -/
theorem firstIndex_find_encode (hs : s.Addressable) (c : Char) :
    FirstIndex (fun i => s.codes[i]? = some (c.toNat : ℤ)) (s.find (encode [c])) := by
  refine (firstIndex_find_of_wellFormed hs (wellFormed_encode [c])).of_iff fun i => ?_
  rw [glyphs_encode, List.map_singleton, singleton_prefix_drop_iff, codes_getElem?_eq_some_iff hs]

/-! ### Bytes of characters -/

section Bytes

variable {b : UInt8} {c : Char} {x y : Text} {i : ℕ}

/-- A byte of a character stands behind the start of the character. -/
theorem singleton_prefix_drop_of_encodeChar_eq (hi : s.glyphs[i]? = some (.scalar c))
    (hc : String.utf8EncodeChar c = x ++ b :: y) : [b] <+: s.drop (s.charStart i + x.length) := by
  obtain ⟨hlt, hg⟩ := List.getElem?_eq_some_iff.1 hi
  have hd : s.drop (s.charStart i) = x ++ (b :: y ++ ofGlyphs (s.glyphs.drop (i + 1))) := by
    rw [drop_charStart, List.drop_eq_getElem_cons hlt, hg, ← List.append_assoc, ← hc]
    rfl
  rw [← List.drop_drop, hd, List.drop_left]
  exact ⟨_, rfl⟩

/-- Up to the first byte of a character, the characters in front of it are counted, and up to
another of its bytes also the character itself. -/
theorem startsBefore_of_encodeChar_eq (hi : s.glyphs[i]? = some (.scalar c))
    (hc : String.utf8EncodeChar c = x ++ b :: y) :
    s.startsBefore (s.charStart i + x.length) = if isContinuation b then i + 1 else i := by
  have hlt : i < s.glyphs.length := (List.getElem?_eq_some_iff.1 hi).1
  have hx := eq_nil_iff_of_encodeChar_eq hc
  rcases hb : isContinuation b with _ | _
  · rw [hx.2 hb]
    exact startsBefore_charStart (Nat.le_of_lt hlt)
  · have hpos : 0 < x.length := List.length_pos_iff.2 (by rw [ne_eq, hx, hb]; decide)
    have hn := charStart_succ_of_getElem? hi
    rw [Glyph.bytes, hc, List.length_append, List.length_cons] at hn
    exact startsBefore_of_lt_of_le hlt (by omega) (by omega)

/-- The answer for a byte is the index of the first character whose encoding holds it, or the index
behind that if it is a continuation byte. -/
theorem firstIndex_find_byte (hs : s.Addressable) (hw : s.WellFormed) (b : UInt8) :
    FirstIndex (fun k => ∃ i c, s.decode[i]? = some (.scalar c) ∧ b ∈ String.utf8EncodeChar c ∧
      k = if isContinuation b then i + 1 else i) (s.find [b]) := by
  rw [decode_eq hs]
  refine firstIndex_find hs (fun offset h => ?_) ?_
  · rw [singleton_prefix_drop_iff, ← ofGlyphs_glyphs s] at h
    obtain ⟨i, g, x, y, hi, hx, rfl⟩ := exists_bytes_eq_of_getElem? h
    cases g with
    | malformed bytes =>
      exact absurd (wellFormed_iff.1 hw _ (List.mem_of_getElem? hi)) (by simp [Glyph.number])
    | scalar c =>
      rw [Glyph.bytes] at hx
      exact ⟨i, c, hi, by simp [hx], startsBefore_of_encodeChar_eq hi hx⟩
  · rintro k ⟨i, c, hi, hb, rfl⟩
    obtain ⟨x, y, hx⟩ := List.append_of_mem hb
    exact ⟨_, singleton_prefix_drop_of_encodeChar_eq hi hx,
      (startsBefore_of_encodeChar_eq hi hx).le⟩

end Bytes

/-! ### Which answers are those for characters -/

/-- An ASCII byte is found at the first character that it is. -/
theorem firstIndex_find_of_lt (hs : s.Addressable) {b : UInt8} (h : b < 0x80) :
    FirstIndex (fun i => s.codes[i]? = some (b.toNat : ℤ)) (s.find [b]) := by
  have hf := firstIndex_find_encode hs (Char.ofNat b.toNat)
  rwa [Ascii.toNat_char h, encode_cons, encodeChar_of_lt h, encode_nil, List.append_nil] at hf

/-- The answer for a byte is that for the character that it is, or for none if it is not ASCII,
exactly if the byte is ASCII or does not occur in the text. -/
theorem firstIndex_byte_iff (hs : s.Addressable) (b : UInt8) :
    FirstIndex (fun i => b < 0x80 ∧ s.codes[i]? = some (b.toNat : ℤ)) (s.find [b]) ↔
      b < 0x80 ∨ b ∉ s := by
  constructor
  · intro h
    refine or_iff_not_imp_left.2 fun hb => find_singleton_eq_neg_one_iff.1 ?_
    exact h.eq_neg_one_iff.2 fun i hi => hb hi.1
  · rintro (hb | hb)
    · exact (firstIndex_find_of_lt hs hb).of_iff fun i => (and_iff_right hb).symm
    · have hf := find_singleton_eq_neg_one_iff.2 hb
      rw [hf]
      exact .absent fun i hi => (firstIndex_find_of_lt hs hi.1).eq_neg_one_iff.1 hf i hi.2

/-- A number is found at the first character that has it, or that has the number of the replacement
character if it is no scalar value. -/
theorem firstIndex_findCode (hs : s.Addressable) (n : ℕ) :
    FirstIndex (fun i => s.codes[i]? = some (if n.isValidChar then (n : ℤ) else 0xfffd))
      (s.findCode n) := by
  have hf := firstIndex_find_encode hs (scalarOrReplacement n)
  rw [toNat_scalarOrReplacement] at hf
  by_cases hv : n.isValidChar
  · rw [if_pos hv]
    unfold Nat.isValidChar at hv
    rwa [if_neg (by omega)] at hf
  · rw [if_neg hv]
    unfold Nat.isValidChar at hv
    rwa [if_pos (by omega)] at hf

/-- The answer for a number is that for the character that has it exactly if it is a scalar value or
the text has no replacement character. -/
theorem firstIndex_code_iff (hs : s.Addressable) (n : ℕ) :
    FirstIndex (fun i => s.codes[i]? = some (n : ℤ)) (s.findCode n) ↔
      n.isValidChar ∨ 0xfffd ∉ s.codes := by
  have hf := firstIndex_findCode hs n
  by_cases hv : n.isValidChar
  · rw [if_pos hv] at hf
    exact iff_of_true hf (.inl hv)
  · rw [if_neg hv] at hf
    have hn : ∀ i : ℕ, ¬ s.codes[i]? = some (n : ℤ) :=
      fun i hi => hv (isValidChar_of_mem_codes (List.mem_of_getElem? hi))
    have hr : 0xfffd ∉ s.codes ↔ ∀ i : ℕ, ¬ s.codes[i]? = some 0xfffd := by
      rw [List.mem_iff_getElem?, not_exists]
    rw [or_iff_right hv, hr, ← hf.eq_neg_one_iff]
    refine ⟨fun h => h.eq_neg_one_iff.2 hn, fun h => ?_⟩
    rw [h]
    exact .absent hn

/-- In a well-formed text that is addressable, the answer for a byte is that for the character that
it is, or for none if it is not ASCII, exactly if the byte is ASCII or does not occur in the text.
The answer for any byte is the index of the first character whose encoding holds the byte, or the
index behind that if it is a continuation byte. The answer for a number is that for the character
that has it exactly if it is a scalar value or the text has no replacement character; for any other
number, the first replacement character is found. -/
theorem find_character (hs : s.Addressable) (hw : s.WellFormed) :
    (∀ b : UInt8,
      (FirstIndex (fun i => b < 0x80 ∧ s.codes[i]? = some (b.toNat : ℤ)) (s.find [b]) ↔
        b < 0x80 ∨ b ∉ s) ∧
      FirstIndex (fun k => ∃ i c, s.decode[i]? = some (.scalar c) ∧
        b ∈ String.utf8EncodeChar c ∧ k = if isContinuation b then i + 1 else i) (s.find [b])) ∧
    ∀ n : ℕ,
      (FirstIndex (fun i => s.codes[i]? = some (n : ℤ)) (s.findCode n) ↔
        n.isValidChar ∨ 0xfffd ∉ s.codes) ∧
      (¬ n.isValidChar → FirstIndex (fun i => s.codes[i]? = some 0xfffd) (s.findCode n)) := by
  refine ⟨fun b => ⟨firstIndex_byte_iff hs b, firstIndex_find_byte hs hw b⟩,
    fun n => ⟨firstIndex_code_iff hs n, fun hv => ?_⟩⟩
  have hf := firstIndex_findCode hs n
  rwa [if_neg hv] at hf

end Lawful

end Platform

section Reference

open scoped ScriptBase.ReferencePlatform

/-- A scalar value of two bytes, and a byte that stands in no encoding. -/
theorem find_character_two :
    let s : Text := "aé"
    s.WellFormed ∧ FirstIndex (fun i => s.codes[i]? = some (0xe9 : ℕ)) (s.findCode 0xe9) ∧
      s.find [0xff] = -1 := by
  intro s
  have hs : s.WellFormed := ⟨['a', 'é'], by decide⟩
  obtain ⟨hbyte, hcode⟩ := find_character (s := s) (by decide) hs
  refine ⟨hs, (hcode 0xe9).1.2 (.inl (by decide)), ?_⟩
  exact ((hbyte 0xff).1.2 (.inr (by decide))).eq_neg_one_iff.2 fun i hi => absurd hi.1 (by decide)

/-- Neither bytes that are not ASCII nor numbers that are no scalar values are found in no
well-formed text: a byte is found behind the character that it is a part of, and a surrogate is
found where the replacement character stands. -/
theorem find_what_is_absent :
    (¬ ∀ s : Text, s.WellFormed → ∀ b : UInt8,
      FirstIndex (fun i => b < 0x80 ∧ s.codes[i]? = some (b.toNat : ℤ)) (s.find [b])) ∧
    ¬ ∀ s : Text, s.WellFormed → ∀ n : ℕ,
      FirstIndex (fun i => s.codes[i]? = some (n : ℤ)) (s.findCode n) := by
  constructor
  · intro h
    have hf := (h "é" ⟨['é'], by decide⟩ 0xa9).eq_neg_one_iff.2
      fun i hi => absurd hi.1 (by decide)
    exact absurd hf (by decide +kernel)
  · intro h
    have hf := (h "\uFFFD" ⟨['\uFFFD'], by decide⟩ 0xd800).eq_neg_one_iff.2 fun i hi =>
      absurd (isValidChar_of_mem_codes (List.mem_of_getElem? hi)) (by decide)
    exact absurd hf (by decide +kernel)

end Reference

end Text

end ScriptBase

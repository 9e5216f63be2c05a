import Mathlib.Algebra.Group.Int.Defs
import Mathlib.Algebra.Group.Nat.Defs
import Mathlib.Data.List.Basic
import Mathlib.Order.Nat
import ScriptBase.Proofs.Text.Reading

/-!
# Where characters start

An offset lies at the start of a character or between two starts, and from this the number of the
characters that start before it can be read off. That number is what a reader counts that goes
through an addressable text by one character after another up to the offset.

Of a text that is not addressable, fewer characters are counted: while a word of 32 bits with a sign
takes its size for a negative number, none at all.

## Main definitions

* `ScriptBase.Text.charStart`: the offset at which a character starts.
* `ScriptBase.Text.startsBefore`: how many characters start before an offset.

## Main results

* `ScriptBase.Text.charIndex_eq_startsBefore`: going by one character after another.
* `ScriptBase.Text.charCount_eq`: how many characters a text has.
* `ScriptBase.Text.startsBefore_eq`: how many characters start before an offset between two starts.
* `ScriptBase.Text.charIndex_of_le_min`: the offsets before which no characters are counted.
-/

namespace ScriptBase.Text

open Platform (firstGlyph)

/-- A size from `2 ^ 31` on is taken for a number that is less by `2 ^ 32`. -/
theorem narrowed_eq_sub {n : ℕ} (hle : 2 ^ 31 ≤ n) (hlt : n < 2 ^ 32) :
    narrowed n = n - 2 ^ 32 := by
  have hsize : Int32.size = 2 ^ 32 := rfl
  rw [narrowed, Int32.toInt_ofNat', Int.bmod_def, hsize]
  split <;> omega

theorem toNat_narrowed {n : ℕ} (hle : 2 ^ 31 ≤ n) (hlt : n < 2 ^ 32) : (narrowed n).toNat = 0 := by
  rw [narrowed_eq_sub hle hlt]
  omega

theorem countP_range_lt (k n : ℕ) : ((List.range n).countP fun j => j < k) = min k n := by
  induction n with
  | zero => simp
  | succ n ih =>
    rw [List.range_succ, List.countP_append, ih, List.countP_singleton]
    by_cases h : n < k <;> simp [h] <;> omega

variable [Platform] {s t : Text} {k : ℕ}

/-- The offset at which the character with an index starts. -/
def charStart (s : Text) (index : ℕ) : ℕ := (ofGlyphs (s.glyphs.take index)).length

/-- How many characters of a text start before an offset. -/
def startsBefore (s : Text) (offset : ℕ) : ℕ :=
  (List.range s.glyphs.length).countP fun k => s.charStart k < offset

/-! ### Starts -/

theorem charStart_zero (s : Text) : s.charStart 0 = 0 := rfl

/-- Each further character starts behind the bytes of those before it. -/
theorem charStart_add (s : Text) (j n : ℕ) :
    s.charStart (j + n) = s.charStart j + (ofGlyphs ((s.glyphs.drop j).take n)).length := by
  rw [charStart, charStart, List.take_add, ofGlyphs_append, List.length_append]

/-- The next character starts behind the bytes of a character. -/
theorem charStart_succ_of_getElem? {g : Glyph} (h : s.glyphs[k]? = some g) :
    s.charStart (k + 1) = s.charStart k + g.bytes.length := by
  have ht : (s.glyphs.drop k).take 1 = [g] := by
    rw [List.take_one, List.head?_drop, h, Option.toList_some]
  rw [charStart_add, ht]
  simp

theorem charStart_mono (s : Text) {j k : ℕ} (h : j ≤ k) : s.charStart j ≤ s.charStart k := by
  obtain ⟨n, rfl⟩ := Nat.exists_eq_add_of_le h
  rw [charStart_add]
  exact Nat.le_add_right _ _

theorem startsBefore_zero (s : Text) : s.startsBefore 0 = 0 := by
  simp [startsBefore]

/-- No fewer characters start before an offset than before an earlier one. -/
theorem startsBefore_mono (s : Text) {m n : ℕ} (h : m ≤ n) :
    s.startsBefore m ≤ s.startsBefore n := by
  refine List.countP_mono_left fun j _ hj => ?_
  rw [decide_eq_true_eq] at hj ⊢
  exact hj.trans_le h

/-- If an offset lies behind the starts of the first `k` characters and not behind that of the next
one, then `k` characters start before it. -/
theorem startsBefore_eq {offset : ℕ} (hk : k ≤ s.glyphs.length)
    (hbehind : ∀ j < k, s.charStart j < offset) (hle : offset ≤ s.charStart k) :
    s.startsBefore offset = k := by
  have hiff (j : ℕ) : s.charStart j < offset ↔ j < k := by
    refine ⟨fun hj => ?_, hbehind j⟩
    by_contra hkj
    have := s.charStart_mono (Nat.le_of_not_lt hkj)
    omega
  simp only [startsBefore, hiff, countP_range_lt, Nat.min_eq_left hk]

/-- An offset inside a character counts that character. -/
theorem startsBefore_of_lt_of_le {offset : ℕ} (hk : k < s.glyphs.length)
    (hlt : s.charStart k < offset) (hle : offset ≤ s.charStart (k + 1)) :
    s.startsBefore offset = k + 1 :=
  startsBefore_eq hk
    (fun _ hj => (s.charStart_mono (Nat.le_of_lt_succ hj)).trans_lt hlt) hle

/-- Bytes that are owed to an earlier character start no character. -/
theorem startsWithin_eq (s : Text) (size : ℤ) (owed offset left : ℕ) :
    startsWithin s size owed offset left = startsWithin s size 0 (offset + owed) (left - owed) := by
  induction owed generalizing offset left with
  | zero => rfl
  | succ owed ih =>
    cases left with
    | zero => rw [Nat.zero_sub, startsWithin, startsWithin]
    | succ left =>
      rw [startsWithin, ih, Nat.add_sub_add_right, Nat.add_right_comm, Nat.add_assoc]

section Lawful

variable [LawfulPlatform]

/-- Different characters start at different offsets. -/
theorem charStart_lt_charStart {j : ℕ} (h : j < k) (hk : k ≤ s.glyphs.length) :
    s.charStart j < s.charStart k := by
  have hj : j < s.glyphs.length := Nat.lt_of_lt_of_le h hk
  have hpos := List.length_pos_iff.2 (bytes_ne_nil_of_mem_glyphs (List.getElem_mem hj))
  have hs := charStart_succ_of_getElem? (List.getElem?_eq_getElem hj)
  exact Nat.lt_of_lt_of_le (Nat.lt_of_lt_of_eq (Nat.lt_add_of_pos_right hpos) hs.symm)
    (s.charStart_mono h)

/-- Behind the last character the text ends. -/
theorem charStart_length (s : Text) : s.charStart s.glyphs.length = s.length := by
  rw [charStart, List.take_length, ofGlyphs_glyphs]

/-- What is read of a text in front of one that goes on with no sequence ends where it starts. -/
theorem NoContinuationFirst.charStart_length (ht : NoContinuationFirst t) (s : Text) :
    (s ++ t).charStart s.glyphs.length = s.length := by
  rw [charStart, ht.glyphs_append, List.take_left, ofGlyphs_glyphs]

/-- The characters from one on make up the text from the start of that one on. -/
theorem drop_charStart (s : Text) (k : ℕ) :
    s.drop (s.charStart k) = ofGlyphs (s.glyphs.drop k) := by
  have h : (ofGlyphs (s.glyphs.take k) ++ ofGlyphs (s.glyphs.drop k)).drop (s.charStart k) =
      ofGlyphs (s.glyphs.drop k) := List.drop_left
  rwa [← ofGlyphs_append, List.take_append_drop, ofGlyphs_glyphs] at h

/-! ### How many characters start before an offset -/

/-- Every character starts before the end. -/
theorem startsBefore_length (s : Text) : s.startsBefore s.length = s.glyphs.length := by
  rw [startsBefore, List.countP_eq_length.2, List.length_range]
  intro k hk
  have hlt := charStart_lt_charStart (List.mem_range.1 hk) le_rfl
  rw [charStart_length] at hlt
  exact decide_eq_true hlt

/-- Past the end there are no further characters. -/
theorem startsBefore_min (s : Text) (offset : ℕ) :
    s.startsBefore (min offset s.length) = s.startsBefore offset := by
  refine List.countP_congr fun k hk => ?_
  have hlt := charStart_lt_charStart (List.mem_range.1 hk) le_rfl
  rw [charStart_length] at hlt
  simp only [decide_eq_true_eq]
  omega

/-- The first character starts before any offset but zero, and the others start behind it. -/
theorem startsBefore_succ (hs : s ≠ []) (offset : ℕ) :
    s.startsBefore (offset + 1) =
      startsBefore (s.drop (firstGlyph s).bytes.length)
        (offset + 1 - (firstGlyph s).bytes.length) + 1 := by
  have hsucc (k : ℕ) : s.charStart (k + 1) = (firstGlyph s).bytes.length +
      charStart (s.drop (firstGlyph s).bytes.length) k := by
    rw [charStart, glyphs_eq_cons hs, List.take_succ_cons, ofGlyphs_cons, List.length_append,
      charStart]
  rw [startsBefore, glyphs_eq_cons hs, List.length_cons, List.range_succ_eq_map,
    List.countP_cons, List.countP_map, charStart_zero, if_pos (by simp), startsBefore]
  congr 2
  ext k
  rw [Function.comp_apply, hsucc, decide_eq_decide]
  omega

/-- As many characters start before a character as are in front of it. -/
theorem startsBefore_charStart (hk : k ≤ s.glyphs.length) :
    s.startsBefore (s.charStart k) = k :=
  startsBefore_eq hk (fun _ hj => charStart_lt_charStart hj hk) le_rfl

/-- Going on from a place of a text by one character after another meets the characters of the rest
of the text. -/
theorem startsWithin_eq_startsBefore (s : Text) {offset left : ℕ}
    (h : offset + left ≤ s.length) :
    startsWithin s s.length 0 offset left = startsBefore (s.drop offset) left := by
  induction left using Nat.strong_induction_on generalizing offset with
  | _ left ih =>
    cases left with
    | zero => rw [startsWithin, startsBefore_zero]
    | succ left =>
      have hlt : offset < s.length := by omega
      have hn : s.drop offset ≠ [] := by
        rw [ne_eq, List.drop_eq_nil_iff]
        omega
      obtain ⟨hbytes, hpos⟩ := bytes_firstGlyph hn
      have hle := hbytes.length_le
      rw [List.length_drop] at hle
      rw [startsWithin, startsBefore_succ hn, LawfulPlatform.nextStart_eq s offset hlt,
        startsWithin_eq, List.drop_drop]
      generalize (firstGlyph (s.drop offset)).bytes.length = size at hpos hle
      rw [show offset + 1 + (offset + size - (offset + 1)) = offset + size by omega,
        show left - (offset + size - (offset + 1)) = left + 1 - size by omega,
        ih (left + 1 - size) (by omega) (by omega)]

/-- As many characters of an addressable text are counted before an offset as start before it. -/
theorem charIndex_eq_startsBefore (hs : s.Addressable) (offset : ℕ) :
    s.charIndex offset = s.startsBefore offset := by
  have hmin : min offset s.length < 2 ^ 31 := Nat.lt_of_le_of_lt (Nat.min_le_right _ _) hs
  rw [charIndex, narrowed_length hs, narrowed_of_lt hmin, Int.toNat_natCast,
    startsWithin_eq_startsBefore s (by omega), List.drop_zero, startsBefore_min]

/-- An addressable text has as many characters as are read from it. -/
theorem charCount_eq (hs : s.Addressable) : s.charCount = s.glyphs.length := by
  rw [charCount, charIndex_eq_startsBefore hs, startsBefore_length]

end Lawful

/-! ### Texts that are not addressable -/

/-- No character is read from a text whose size is taken for a negative number. -/
theorem decode_eq_nil {s : Text} (hle : 2 ^ 31 ≤ s.length) (hlt : s.length < 2 ^ 32) :
    s.decode = [] := by
  rw [decode, toNat_narrowed hle hlt, List.take_zero, glyphs_nil]

/-- No characters are counted before an offset that is taken for a negative number. -/
theorem charIndex_of_le_min {s : Text} {offset : ℕ} (hle : 2 ^ 31 ≤ min offset s.length)
    (hlt : min offset s.length < 2 ^ 32) : s.charIndex offset = 0 := by
  rw [charIndex, toNat_narrowed hle hlt]
  exact startsWithin.eq_1 ..

end ScriptBase.Text

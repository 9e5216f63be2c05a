import Mathlib.Algebra.Order.Ring.Int
import ScriptBase.Value.Basic

/-!
# The elements of a span

A span takes differences, its number of elements and its elements in words without signs, which wrap
around, and reads them as integers with a sign. Where `hi` is not below `lo`, the difference of the
words is that of the integers, on whichever side of zero these are. So exactly the spans are refused
that have more elements than the greatest integer. In any other, the index of a cursor is at most
the number of elements and goes up by one with every step, and `lo` and the index add up to an
integer that is not above `hi`. Hence nothing wraps around, and an iteration goes through the
integers from `lo` to `hi`.

## Main results

* `ScriptBase.Span.tooLong_iff`: the spans that are refused.
* `ScriptBase.Span.coe_toNat_count`, `ScriptBase.Span.size_eq`: the number of elements.
* `ScriptBase.Span.Cursor.map_toInt_through`: what an iteration goes through.
* `ScriptBase.Span.make_and_iterate`: making a span and going through it.
-/

namespace ScriptBase.Span

variable {lo hi : Int64}

/-! ### Words as integers -/

/-- A word with its first bit set is read as an integer below zero. -/
theorem toInt_eq (n : Int64) :
    n.toInt =
      if n.toUInt64.toNat < 2 ^ 63 then (n.toUInt64.toNat : ℤ) else n.toUInt64.toNat - 2 ^ 64 := by
  rw [Int64.toInt, BitVec.toInt_eq_toNat_cond]
  change (if 2 * n.toUInt64.toNat < 2 ^ 64 then (n.toUInt64.toNat : ℤ)
    else n.toUInt64.toNat - (2 ^ 64 : ℕ)) = _
  split_ifs <;> omega

/-- A word below `2 ^ 63` is read as the same integer. -/
theorem toInt_toInt64 {n : UInt64} (h : n.toNat < 2 ^ 63) : n.toInt64.toInt = n.toNat := by
  rw [toInt_eq]
  exact if_pos h

/-- The difference of two integers is that of their words, if it is not negative. -/
theorem coe_toNat_sub (h : lo ≤ hi) :
    ((hi.toUInt64 - lo.toUInt64).toNat : ℤ) = hi.toInt - lo.toInt := by
  rw [Int64.le_iff_toInt_le] at h
  have hlo := toInt_eq lo
  have hhi := toInt_eq hi
  have := lo.toUInt64.toNat_lt
  have := hi.toUInt64.toNat_lt
  rw [UInt64.toNat_sub]
  split_ifs at hlo hhi <;> omega

/-! ### Counting the elements -/

/-- A span is refused exactly if it has more elements than the greatest integer. -/
theorem tooLong_iff : TooLong lo hi ↔ 2 ^ 63 - 1 < hi.toInt - lo.toInt + 1 := by
  have hmax : Int64.maxValue.toUInt64.toNat = 2 ^ 63 - 1 := rfl
  rw [TooLong, UInt64.le_iff_toNat_le, hmax]
  constructor
  · rintro ⟨hle, hd⟩
    have := coe_toNat_sub hle
    omega
  · intro h
    have hle : lo ≤ hi := Int64.le_iff_toInt_le.2 (by omega)
    have := coe_toNat_sub hle
    exact ⟨hle, by omega⟩

theorem isEmpty_eq_true_iff {s : Span} : s.isEmpty = true ↔ s.hi.toInt < s.lo.toInt := by
  rw [isEmpty, decide_eq_true_eq, Int64.lt_iff_toInt_lt]

/-- The distance of the ends of a span that is not empty leaves room for one more. -/
theorem coe_toNat_count (s : Span) :
    (s.count.toNat : ℤ) = max 0 (s.hi.toInt - s.lo.toInt + 1) := by
  have hc := mt tooLong_iff.2 s.countable
  rw [count]
  split
  · next he =>
    have := isEmpty_eq_true_iff.1 he
    exact (max_eq_left (by omega)).symm
  · next he =>
    have hle := Int.not_lt.1 (mt isEmpty_eq_true_iff.2 he)
    have hd := coe_toNat_sub (Int64.le_iff_toInt_le.2 hle)
    have h1 : (1 : UInt64).toNat = 1 := rfl
    rw [UInt64.toNat_add, h1, max_eq_right (by omega)]
    omega

theorem toNat_count_lt (s : Span) : s.count.toNat < 2 ^ 63 := by
  have hc := mt tooLong_iff.2 s.countable
  have := coe_toNat_count s
  omega

/-- The word that counts the elements is read as the same integer. -/
theorem size_eq (s : Span) : s.size = s.count.toNat := toInt_toInt64 s.toNat_count_lt

/-! ### Going through the elements -/

namespace Cursor

variable {stop c : Cursor}

/-- The element at a cursor is as far from the first one as the index says, if there is an integer
that is. -/
theorem toInt_element (h : c.lo.toInt + c.index.toNat < 2 ^ 63) :
    c.element.toInt = c.lo.toInt + c.index.toNat := by
  have hlo := toInt_eq c.lo
  have he := toInt_eq c.element
  have hsum : c.element.toUInt64.toNat = (c.lo.toUInt64.toNat + c.index.toNat) % 2 ^ 64 :=
    UInt64.toNat_add _ _
  have := c.lo.le_toInt
  have := c.lo.toUInt64.toNat_lt
  have := c.index.toNat_lt
  split_ifs at hlo he <;> omega

/-- The index of the next element is one more, as long as the end is not reached. -/
theorem toNat_index_next (h : c.index.toNat < stop.index.toNat) :
    c.next.index.toNat = c.index.toNat + 1 := by
  have := stop.index.toNat_lt
  have h1 : (1 : UInt64).toNat = 1 := rfl
  rw [next, UInt64.toNat_add, h1]
  omega

theorem meets_eq_true_iff : c.meets stop = true ↔ c.index.toNat = stop.index.toNat := by
  rw [meets, beq_iff_eq, UInt64.toNat_inj]

/-- An iteration from an index that is not past the end goes through the elements with the indices
up to the end, if all of these are integers. -/
theorem map_toInt_through (hle : c.index.toNat ≤ stop.index.toNat)
    (hlt : c.lo.toInt + stop.index.toNat ≤ 2 ^ 63) :
    (through stop c).map Int64.toInt =
      (List.range' c.index.toNat (stop.index.toNat - c.index.toNat)).map fun i : ℕ =>
        c.lo.toInt + i := by
  induction c using through.induct stop with
  | case1 c h =>
    rw [through, if_pos h, meets_eq_true_iff.1 h, Nat.sub_self]
    rfl
  | case2 c h ih =>
    have hne := mt meets_eq_true_iff.2 h
    have hnext := toNat_index_next (lt_of_le_of_ne hle hne)
    have hlen : stop.index.toNat - c.index.toNat = stop.index.toNat - (c.index.toNat + 1) + 1 := by
      omega
    rw [through, if_neg h, List.map_cons, toInt_element (by omega), ih (by omega) hlt, hnext, hlen,
      List.range'_succ, List.map_cons]
    rfl

/-- What is gone through at most is the start of what is gone through. -/
theorem throughAtMost_eq_take (n : ℕ) (c : Cursor) :
    throughAtMost stop n c = (through stop c).take n := by
  induction n generalizing c with
  | zero => rfl
  | succ n ih =>
    rw [throughAtMost, through]
    split
    · rfl
    · rw [ih, List.take_succ_cons]

end Cursor

/-- The first elements are those of the whole list. -/
theorem take_eq_take_toList (s : Span) (n : ℕ) : s.take n = s.toList.take n :=
  Cursor.throughAtMost_eq_take n s.start

theorem map_toInt_toList (s : Span) :
    s.toList.map Int64.toInt =
      (List.range (s.hi.toInt - s.lo.toInt + 1).toNat).map fun i : ℕ => s.lo.toInt + i := by
  have hcount := s.coe_toNat_count
  have hlt := s.hi.toInt_lt
  have hlo := s.lo.toInt_lt
  have hn : s.count.toNat = (s.hi.toInt - s.lo.toInt + 1).toNat := by omega
  have hfirst : s.start.index.toNat ≤ s.finish.index.toNat := Nat.zero_le _
  have hlast : s.start.lo.toInt + s.finish.index.toNat ≤ 2 ^ 63 := by
    change s.lo.toInt + s.count.toNat ≤ 2 ^ 63
    omega
  rw [toList, Cursor.map_toInt_through hfirst hlast, ← hn, List.range_eq_range']
  rfl

/-- A span is refused, with a fault of an overflow, exactly if it has more elements than the
greatest integer. Any other is made, and its size and its length are the number of integers from
`lo` to `hi`, it is empty exactly if its size is zero, and an iteration goes through these integers
one after another. -/
theorem make_and_iterate [Platform] (lo hi : Int64) :
    let number := hi.toInt - lo.toInt + 1
    if 2 ^ 63 - 1 < number then ∃ fault, make lo hi = .error fault ∧ fault.kind = .overflow
    else ∃ s, make lo hi = .ok s ∧ s.size = max 0 number ∧ ((Value.span s).length : ℤ) = s.size ∧
      (s.isEmpty = true ↔ s.size = 0) ∧
      s.toList.map Int64.toInt = (List.range number.toNat).map fun i : ℕ => lo.toInt + i := by
  intro number
  split
  · next h => exact ⟨.rangeTooLong, dif_pos (tooLong_iff.2 h), rfl⟩
  · next h =>
    have hc := mt tooLong_iff.1 h
    let s : Span := ⟨lo, hi, hc⟩
    have hsize : s.size = max 0 number := by rw [size_eq, coe_toNat_count]
    have hnonneg : 0 ≤ s.size := hsize ▸ le_max_left 0 number
    refine ⟨s, dif_neg hc, hsize, ?_, ?_, map_toInt_toList s⟩
    · rw [Value.length, Int.toNat_of_nonneg hnonneg]
    · rw [isEmpty_eq_true_iff, hsize]
      change hi.toInt < lo.toInt ↔ _
      omega

/-- The longest spans end at the greatest integer, or start at the least one. -/
example : (make 1 Int64.maxValue).map size = .ok (2 ^ 63 - 1) ∧
    (make Int64.minValue (-2)).map size = .ok (2 ^ 63 - 1) ∧
    (make (-1) Int64.maxValue).map size = .error .rangeTooLong := by
  decide

end ScriptBase.Span

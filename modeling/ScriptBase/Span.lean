import ScriptBase.Fault

/-!
# Spans

A span is an ascending run of 64-bit integers from `lo` to `hi`, both included, and empty if `hi` is
below `lo`. Its elements are counted by a 64-bit word without a sign, and a span with more elements
than the greatest 64-bit integer is refused. They are gone through by a cursor that holds the index
of an element and finds the element by adding the index to `lo`, in words without signs.

## Main definitions

* `ScriptBase.Span`, `ScriptBase.Span.make`: spans, and the span between two integers.
* `ScriptBase.Span.count`, `ScriptBase.Span.size`: the number of elements, as a word and as an
  integer.
* `ScriptBase.Span.Cursor`: where in a span an iteration stands.
* `ScriptBase.Span.toList`, `ScriptBase.Span.take`: the elements that an iteration goes through.
-/

namespace ScriptBase

/-- Whether there are more integers from `lo` to `hi` than the greatest integer. The distance of the
two is taken only where `hi` is not below `lo`. -/
def Span.TooLong (lo hi : Int64) : Prop :=
  lo ≤ hi ∧ Int64.maxValue.toUInt64 ≤ hi.toUInt64 - lo.toUInt64

instance (lo hi : Int64) : Decidable (Span.TooLong lo hi) := inferInstanceAs (Decidable (_ ∧ _))

/-- An ascending run of integers, both ends included. -/
structure Span where
  lo : Int64
  hi : Int64
  countable : ¬ Span.TooLong lo hi

namespace Span

/-- The span between two integers, unless it has too many elements. -/
def make (lo hi : Int64) : Except Fault Span :=
  if h : TooLong lo hi then .error .rangeTooLong else .ok ⟨lo, hi, h⟩

/-- Whether there are no elements. -/
def isEmpty (s : Span) : Bool := s.hi < s.lo

/-- The number of elements, as a word without a sign. -/
def count (s : Span) : UInt64 := if s.isEmpty then 0 else s.hi.toUInt64 - s.lo.toUInt64 + 1

/-- The number of elements, as an integer. -/
def size (s : Span) : Int := s.count.toInt64.toInt

/-! ### Going through the elements -/

/-- Where in a span an iteration stands: at the element with an index. -/
structure Cursor where
  lo : Int64
  index : UInt64
  deriving DecidableEq, Repr

namespace Cursor

/-- The element at a cursor. -/
def element (c : Cursor) : Int64 := (c.lo.toUInt64 + c.index).toInt64

/-- The cursor at the next element. -/
def next (c : Cursor) : Cursor := { c with index := c.index + 1 }

/-- Whether two cursors on one span are at the same element. -/
def meets (c d : Cursor) : Bool := c.index == d.index

/-- A cursor that is not at the end is one step farther from it than the next one, also where the
index wraps around. -/
theorem toNat_sub_next {stop c : Cursor} (h : ¬ c.meets stop = true) :
    (stop.index - c.next.index).toNat + 1 = (stop.index - c.index).toNat := by
  have hne : c.index.toNat ≠ stop.index.toNat := fun he => h (beq_iff_eq.2 (UInt64.toNat_inj.1 he))
  have hc := c.index.toNat_lt
  have hs := stop.index.toNat_lt
  have h1 : (1 : UInt64).toNat = 1 := rfl
  rw [next, UInt64.toNat_sub, UInt64.toNat_sub, UInt64.toNat_add, h1]
  omega

/-- The elements from a cursor on, up to that at `stop`, which is not one of them. -/
def through (stop c : Cursor) : List Int64 :=
  if c.meets stop then [] else c.element :: through stop c.next
termination_by (stop.index - c.index).toNat
decreasing_by
  have := toNat_sub_next ‹¬ c.meets stop = true›
  omega

/-- The same, but no more than `n` elements. -/
def throughAtMost (stop : Cursor) : Nat → Cursor → List Int64
  | 0, _ => []
  | n + 1, c => if c.meets stop then [] else c.element :: throughAtMost stop n c.next

end Cursor

/-- The cursor at the first element. -/
def start (s : Span) : Cursor := ⟨s.lo, 0⟩

/-- The cursor behind the last element. -/
def finish (s : Span) : Cursor := ⟨s.lo, s.count⟩

/-- The elements in the order in which an iteration goes through them. -/
def toList (s : Span) : List Int64 := Cursor.through s.finish s.start

/-- The first `n` elements, all of them if there are no more. -/
def take (s : Span) (n : Nat) : List Int64 := Cursor.throughAtMost s.finish n s.start

end Span

end ScriptBase

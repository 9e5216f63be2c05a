import ScriptBase.Floating.Format

/-!
# Rounding to the nearest floating-point number

Every exact result is rounded once, to the nearest number of the format; of two that are equally
near the one with the even significand is taken, and beyond the greatest number lies infinity.

## Main definitions

* `ScriptBase.Floating.nearest`: the number nearest to a quotient with a sign.
* `ScriptBase.Floating.ofInt`, `ScriptBase.Floating.convert`: integers, and numbers of another
  format.
* `ScriptBase.Floating.add`: the sum of two numbers.
* `ScriptBase.Floating.truncate`: the whole part of a number.
-/

namespace ScriptBase.Floating

variable {f : FloatFormat}

/-- The exponent of the last place that a number next to `r` has: the least one of the format at
which `r` takes no more bits than a significand holds. -/
def placeFor (f : FloatFormat) (r : Ratio) : Int :=
  if r.num = 0 then f.leastPlace
  else
    let guess := max ((r.num.log2 : Int) - r.den.log2 - (f.fractionBits + 1)) f.leastPlace
    if (r.scale .two (-guess)).floor < 2 * f.fractions then guess else guess + 1

/-- The number nearest to `r`, with a sign. The bits of a magnitude count the magnitudes of the
format from zero on, so a significand that is rounded up to the next power of two carries into the
exponent field by itself. -/
def nearest (f : FloatFormat) (negative : Bool) (r : Ratio) : Floating f :=
  let place := placeFor f r
  let significand := (r.scale .two (-place)).round
  let bits := (place - f.leastPlace).toNat * f.fractions + significand
  ofSignBits f negative (min bits f.infinityBits)

/-- The number nearest to an integer. -/
def ofInt (f : FloatFormat) (n : Int) : Floating f := nearest f (n < 0) (Ratio.ofNat n.natAbs)

/-- The number of format `g` nearest to a number of format `f`. The sign is kept, also that of what
is not a number. -/
def convert (g : FloatFormat) (x : Floating f) : Floating g :=
  if x.isNaN then nan g x.isNegative
  else if x.isInfinite then infinity g x.isNegative
  else nearest g x.isNegative x.magnitude

/-- The whole number `significand * 2 ^ (place - base)`, with the sign of a finite number. -/
def unitsAt (x : Floating f) (base : Int) : Int :=
  let units := x.significand * Nat.pow 2 (x.place - base).toNat
  if x.isNegative then -units else units

/-- The sum of two numbers. A sum that is exactly zero has no sign, unless both numbers have one.
What is not a number stays so with its sign, that of the first of two; two infinities with different
signs have no sum, and what they give instead has a minus sign. -/
def add (x y : Floating f) : Floating f :=
  if x.isNaN then nan f x.isNegative
  else if y.isNaN then nan f y.isNegative
  else if x.isInfinite then
    if y.isInfinite && x.isNegative != y.isNegative then nan f true else x
  else if y.isInfinite then y
  else
    let base := min x.place y.place
    let units := x.unitsAt base + y.unitsAt base
    if units = 0 then ofSignBits f (x.isNegative && y.isNegative) 0
    else nearest f (units < 0) ((Ratio.ofNat units.natAbs).scale .two base)

instance : Add (Floating f) := ⟨add⟩

/-- The whole part of a number as a 64-bit integer. What has no such whole part is taken as the
least integer. -/
def truncate (x : Floating f) : Int64 :=
  if x.isFinite then
    let whole : Int := if x.isNegative then -x.magnitude.floor else x.magnitude.floor
    if Int64.minValue.toInt ≤ whole ∧ whole ≤ Int64.maxValue.toInt then Int64.ofInt whole
    else Int64.minValue
  else Int64.minValue

/-! ### Signs -/

@[simp] theorem isNegative_nearest (g : FloatFormat) (negative : Bool) (r : Ratio) :
    (nearest g negative r).isNegative = negative := by
  have := g.infinityBits_add_fractions
  have := g.fractions_pos
  exact isNegative_ofSignBits (Nat.lt_of_le_of_lt (Nat.min_le_right ..) (by omega))

/-- Every number has the same sign in all formats. -/
@[simp] theorem isNegative_convert (g : FloatFormat) (x : Floating f) :
    (x.convert g).isNegative = x.isNegative := by
  unfold convert
  split
  · simp
  · split <;> simp

end ScriptBase.Floating

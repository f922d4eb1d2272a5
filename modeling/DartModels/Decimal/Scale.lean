/-!
# Reading a decimal

The double that stands for an integer times a power of ten.

The rule is the quick one: the integer is rounded to a double, and so is the
power of ten, and one multiplication or division joins them. Up to a
significand of 53 bits and a power of 22 both operands are exact and the
result is the nearest double. Beyond that the result may miss the nearest
double by a unit in the last place, which no type depends on.

Powers are at most `10 ^ 308`, the largest that a double holds. A larger power
upwards takes any significand but zero out of range. A smaller one downwards
is reached in steps of `10 ^ 308`, and the second of them has already turned
every 64-bit significand to zero.

## Main definitions

* `Decimal.powerOfTen`: A power of ten as a double.
* `Decimal.scale`: A double times a power of ten.
* `Decimal.ofSignificand`: A significand times a power of ten.
-/

namespace DartModels

namespace Decimal

/-- The largest power of ten that is a finite double. -/
def maxPower : Nat := 308

/-- The double nearest to `10 ^ n`. -/
def powerOfTen (n : Nat) : Float :=
  Float.ofScientific 1 false n

/-- The double `f` times `10 ^ e`, or `none` if that is out of range. -/
def scale (f : Float) (e : Int) : Option Float :=
  if _h : e < -(maxPower : Int) then
    if f == 0.0 then some f
    else scale (f / powerOfTen maxPower) (e + (maxPower : Int))
  else if e < 0 then some (f / powerOfTen e.natAbs)
  else if e ≤ (maxPower : Int) then
    let g := f * powerOfTen e.natAbs
    if g.isInf then none else some g
  else if f == 0.0 then some f
  else none
termination_by e.natAbs
decreasing_by
  simp only [maxPower] at *
  omega

/-- The double for `significand * 10 ^ e` with its sign, or `none` if it is
    out of range. -/
def ofSignificand (negative : Bool) (significand : Nat) (e : Int) : Option Float :=
  (scale significand.toUInt64.toFloat e).map fun f => if negative then -f else f

end Decimal

end DartModels

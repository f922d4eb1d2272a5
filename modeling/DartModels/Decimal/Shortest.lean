/-!
# Shortest decimals

The decimal that is written for a double: the one with the fewest digits among
those that read back as that double, and of these the nearest.

A finite double is `m * 2 ^ q` for whole numbers `m` and `q`. The reals that
round to it lie between the two halfway points to its neighbours, and the
halfway points belong to it exactly when `m` is even. Whether a decimal
`c * 10 ^ k` lies in that interval is a comparison of whole numbers once both
sides are brought to one denominator, so no step below computes with doubles.

For one digit, two digits and so on up to seventeen, the search looks at the
two decimals of that length next to the value. If any decimal of that length
lies in the interval then one of these two does, so the first length with a
hit is the least. Seventeen digits always suffice for a double.

Halves are avoided by measuring in quarters of `2 ^ q`: the value is `4 * m`,
the upper halfway point two more, and the lower one two less, or one less
where `m` is the least significand of its binade and the neighbour below is
twice as near.

## Main definitions

* `Binary`: A double taken apart.
* `Shortest`: A decimal significand with its exponent.
* `Binary.shortest`: The decimal that is written.
-/

namespace DartModels

namespace Decimal

/-- A finite double taken apart: `significand * 2 ^ exponent` with a sign.
    `edge` marks the least significand of a binade above the lowest. -/
structure Binary where
  negative : Bool
  significand : Nat
  exponent : Int
  edge : Bool
  deriving DecidableEq

/-- A double taken apart, or `none` for the infinities and what is not a
    number. -/
def Binary.ofFloat? (f : Float) : Option Binary :=
  let bits : Nat := f.toBits.toNat
  let hidden := Nat.pow 2 52
  let negative := Nat.pow 2 63 ≤ bits
  let biased : Nat := bits / hidden % Nat.pow 2 11
  let fraction : Nat := bits % hidden
  if biased = 2047 then none
  else if biased = 0 then some ⟨negative, fraction, -1074, false⟩
  else some ⟨negative, hidden + fraction, (biased : Int) - 1075, fraction = 0 && 1 < biased⟩

/-- A decimal, `significand * 10 ^ exponent`. -/
structure Shortest where
  significand : Nat
  exponent : Int
  deriving DecidableEq

namespace Binary

/-- The factor by which quarters of `2 ^ q` are multiplied to compare them
    with units of `10 ^ k`. -/
def quarterScale (q k : Int) : Nat :=
  Nat.pow 2 (q - 2).toNat * Nat.pow 10 (-k).toNat

/-- The factor by which units of `10 ^ k` are multiplied to compare them with
    quarters of `2 ^ q`. -/
def unitScale (q k : Int) : Nat :=
  Nat.pow 2 (2 - q).toNat * Nat.pow 10 k.toNat

/-- Whether `c * 10 ^ k` rounds to the double. -/
def roundsTo (b : Binary) (c : Nat) (k : Int) : Bool :=
  let x := c * unitScale b.exponent k
  let low := (4 * b.significand - (if b.edge then 1 else 2)) * quarterScale b.exponent k
  let high := (4 * b.significand + 2) * quarterScale b.exponent k
  if b.significand % 2 = 0 then low ≤ x && x ≤ high else low < x && x < high

/-- The better of the two decimals in units of `10 ^ k` next to the value, if
    either rounds to it. A tie goes to the even one. -/
def nearest? (b : Binary) (k : Int) : Option Shortest :=
  let v := 4 * b.significand * quarterScale b.exponent k
  let unit := unitScale b.exponent k
  let below := v / unit
  let above := below + 1
  let low := roundsTo b below k
  let high := roundsTo b above k
  let twice := 2 * (v % unit)
  if low && high then
    if twice < unit || (twice = unit && below % 2 = 0) then some ⟨below, k⟩ else some ⟨above, k⟩
  else if low then some ⟨below, k⟩
  else if high then some ⟨above, k⟩
  else none

/-- The number of decimal digits of a whole number. -/
def digitCount (n : Nat) : Nat :=
  (Nat.toDigits 10 n).length

/-- The place of the leading digit of the value: `e` with
    `10 ^ e ≤ value < 10 ^ (e + 1)`. Below one, the value is scaled up until a
    whole part appears; `tries` bounds the scaling. -/
def leadingPlace (b : Binary) : Nat → Nat → Int
  | 0, shift => -(shift : Int)
  | tries + 1, shift =>
      let whole := 4 * b.significand * quarterScale b.exponent (-(shift : Int)) /
        unitScale b.exponent (-(shift : Int))
      if whole = 0 then leadingPlace b tries (shift + 1)
      else (digitCount whole : Int) - 1 - (shift : Int)

/-- The first length from `digits` on that has a decimal rounding to the
    value whose leading digit stands at `place`. -/
def search (b : Binary) (place : Int) : Nat → Nat → Shortest
  | 0, digits => ⟨0, place - digits + 1⟩
  | tries + 1, digits =>
      match nearest? b (place - digits + 1) with
      | some d => d
      | none => search b place tries (digits + 1)

/-- The decimal that is written for a double. -/
def shortest (b : Binary) : Shortest :=
  if b.significand = 0 then ⟨0, 0⟩
  else search b (leadingPlace b 326 0) 17 1

end Binary

end Decimal

end DartModels

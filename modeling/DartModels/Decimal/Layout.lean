import DartModels.Decimal.Shortest

/-!
# Laying out a decimal

How a double is spelled once its digits are chosen.

The digits are a matter of arithmetic and the same for everyone. What differs
from one place to another is the layout: up to which size the number is written
with its point in place, and how an exponent is spelled beyond that. Those
decisions are collected in a record, `Layout`, and each writer of numbers owns
one value of it.

A number written in place always shows a point, so that it reads back as a
double and not as an integer.

## Main definitions

* `Layout`: The decisions of one writer of numbers.
* `Layout.positional`, `Layout.scientific`: The two forms.
* `Layout.write`: A double in words, if it is finite.
-/

namespace DartModels

namespace Decimal

/-- How one writer of numbers lays them out. -/
structure Layout where
  /-- The lowest place of the leading digit that is written in place. -/
  lowest : Int
  /-- The highest place of the leading digit that is written in place. -/
  highest : Int
  /-- Whether a positive exponent has a plus sign. -/
  plus : Bool
  /-- The least number of digits of an exponent. -/
  exponentWidth : Nat

namespace Layout

/-- Digits without the zeros at their end, with the count of those. -/
def stripZeros (digits : List Char) : List Char × Nat :=
  let kept := (digits.reverse.dropWhile (· == '0')).reverse
  (kept, digits.length - kept.length)

/-- Digits with the point in place, where the leading digit stands at
    `10 ^ place`. -/
def positional (digits : List Char) (place : Int) : List Char :=
  if place < 0 then
    ['0', '.'] ++ List.replicate (-place - 1).toNat '0' ++ digits
  else
    let whole := place.toNat + 1
    if digits.length ≤ whole then
      digits ++ List.replicate (whole - digits.length) '0' ++ ['.', '0']
    else digits.take whole ++ ['.'] ++ digits.drop whole

/-- Digits with an exponent. -/
def scientific (layout : Layout) (digits : List Char) (place : Int) : List Char :=
  let sign := if place < 0 then ['-'] else if layout.plus then ['+'] else []
  let exponent := Nat.toDigits 10 place.natAbs
  let padding := List.replicate (layout.exponentWidth - exponent.length) '0'
  let mantissa :=
    match digits with
    | d :: rest@(_ :: _) => d :: '.' :: rest
    | ds => ds
  mantissa ++ ['e'] ++ sign ++ padding ++ exponent

/-- A decimal with its sign. -/
def spell (layout : Layout) (negative : Bool) (d : Shortest) : List Char :=
  let sign := if negative then ['-'] else []
  if d.significand = 0 then sign ++ ['0', '.', '0']
  else
    let (digits, zeros) := stripZeros (Nat.toDigits 10 d.significand)
    let place := d.exponent + zeros + digits.length - 1
    if layout.lowest ≤ place && place ≤ layout.highest then sign ++ positional digits place
    else sign ++ scientific layout digits place

/-- A double in words: `none` if it is not finite. -/
def write? (layout : Layout) (f : Float) : Option String :=
  (Binary.ofFloat? f).map fun b => String.ofList (layout.spell b.negative b.shortest)

end Layout

end Decimal

end DartModels

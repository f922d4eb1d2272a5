/-!
# The nearest double

The double that lies nearest to a decimal number in writing.

Documents are read by a quicker rule that may miss the nearest double by a
unit in the last place. Arithmetic on a number that has been kept in writing
starts from the nearest double instead, and that is what is computed here. The
digits on both sides of the point make one integer, and the exponent is moved
by the number of digits behind the point.

An exponent that takes the number far out of range is cut before any power is
formed. The cut is taken outside everything a double can hold, so it changes
no value and only keeps the powers small.

## Main definitions

* `Nearest.ofScaled`: The double nearest to an integer times a power of ten.
* `Decimal.nearest?`: The double nearest to a number in writing.
-/

namespace DartModels

namespace Decimal

namespace Nearest

/-- The number that decimal digits spell. -/
def natural (digits : List Char) : Nat :=
  digits.foldl (fun n c => n * 10 + (c.toNat - '0'.toNat)) 0

/-- The integer that digits behind an optional sign spell. -/
def integer? : List Char → Option Int
  | '-' :: rest => if !rest.isEmpty && rest.all Char.isDigit then some (-(natural rest)) else none
  | '+' :: rest => if !rest.isEmpty && rest.all Char.isDigit then some (natural rest) else none
  | rest => if !rest.isEmpty && rest.all Char.isDigit then some (natural rest) else none

/-- The double nearest to `m * 10 ^ e`. Beyond `10 ^ 400` and below
    `10 ^ -400` every significand but zero is out of range. -/
def ofScaled (m : Nat) (e : Int) : Float :=
  let size : Int := (Nat.toDigits 10 m).length
  if m = 0 then 0.0
  else if 400 < size + e then 1.0 / 0.0
  else if size + e < -400 then 0.0
  else Float.ofScientific m (e < 0) e.natAbs

/-- The exponent at the end of a number: none is zero. -/
def exponent? : List Char → Option Int
  | [] => some 0
  | 'e' :: rest => integer? rest
  | 'E' :: rest => integer? rest
  | _ => none

/-- The double nearest to a number without a sign. -/
def unsigned? (s : List Char) : Option Float :=
  let whole := s.takeWhile Char.isDigit
  let rest := s.dropWhile Char.isDigit
  let (places, tail) :=
    match rest with
    | '.' :: more => (more.takeWhile Char.isDigit, more.dropWhile Char.isDigit)
    | _ => ([], rest)
  if whole.isEmpty && places.isEmpty then none
  else (exponent? tail).map fun e => ofScaled (natural (whole ++ places)) (e - places.length)

end Nearest

/-- The double nearest to a number in writing: `none` if the text is not a
    number. -/
def nearest? (text : String) : Option Float :=
  match text.toList with
  | '-' :: rest => (Nearest.unsigned? rest).map fun f => -f
  | s => Nearest.unsigned? s

end Decimal

end DartModels

import SlotFlow.Decimal.Numeral
/-!
# Doubles for numerals

JSON says what a numeral looks like, and leaves to its readers which double it becomes. A
`Json.Conversion` is such a choice. Documents are read with `Json.Conversion.scaled`, which is quick
but rounds more than once on the way, so that not every double that is written comes back.

* `Json.Conversion.nearest` — the double nearest to the numeral;
* `Json.Conversion.scaled` — the digits as one double, multiplied or divided by a power of ten.
-/

namespace SlotFlow.Json

/-- How a reader makes a double of a numeral. What is not finite stands for a numeral that is beyond
the doubles. -/
structure Conversion where
  /-- The double for a sign, the digits before and after the point, and the exponent, if there is one. -/
  double (negative : Bool) (whole places : List Char) (exponent : Option Int) : Float

namespace Conversion

/-- The double nearest to a numeral. -/
def nearest : Conversion where
  double negative whole places exponent :=
    Binary64.ofDecimal negative (Numeral.digitsValue (whole ++ places))
      (exponent.getD 0 - places.length)

-- ---------------------------------------------------------------------------
-- Scaling
-- ---------------------------------------------------------------------------

/-- The largest power of ten that doubles are multiplied or divided by at once. -/
def maxPower : Nat := 308

/-- The double nearest to a power of ten. -/
def powerOfTen (power : Nat) : Float :=
  Binary64.nearest false (Nat.pow 10 power) 1

/-- Adds digits to a significand as long as it fits into 64 bits: the significand, and the number of
digits that were left out. -/
def accumulate (significand : Nat) : List Char → Nat × Nat
  | [] => (significand, 0)
  | c :: cs =>
    let next := 10 * significand + (c.toNat - '0'.toNat)
    if next < UInt64.size then accumulate next cs else (significand, cs.length + 1)

/-- Divides so many times by the largest power of ten, or until nothing is left. -/
def shrink : Nat → Float → Float
  | 0, x => x
  | times + 1, x => if x == 0 then x else shrink times (x / powerOfTen maxPower)

/-- Scales a double by a power of ten. A power that is too large at once is infinite, unless there is
nothing to multiply; one that is too small is taken in steps. -/
def scale (x : Float) (power : Int) : Float :=
  if 0 ≤ power then
    if power ≤ maxPower then x * powerOfTen power.toNat
    else if x == 0 then x
    else 1 / 0
  else
    let rest := power.natAbs - 1
    shrink (rest / maxPower) x / powerOfTen (rest % maxPower + 1)

/-- The digits as a double, scaled by the power of ten that they count. Digits beyond 64 bits are left
out: those before the point still count as places, those after it do not. -/
def scaled : Conversion where
  double negative whole places exponent :=
    let (significand, dropped) := accumulate 0 whole
    let (significand, ignored) := accumulate significand places
    let power := exponent.getD 0 + dropped - (places.length - ignored : Nat)
    let x := scale (Binary64.nearest false significand 1) power
    if negative then -x else x

end Conversion

end SlotFlow.Json

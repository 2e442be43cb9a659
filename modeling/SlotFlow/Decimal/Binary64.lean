/-!
# Doubles as exact numbers

A double is either not a number, an infinity, or a signed dyadic number. This module reads that
off its bits and goes back from an exact fraction to the nearest double.

* `Binary64.ofFloat` — the exact number that a double holds;
* `Binary64.nearest` — the double nearest to a fraction, a tie going to the even mantissa;
* `Binary64.ofDecimal` — the same for a decimal numeral.
-/

namespace SlotFlow

/-- What a double stands for: no number, an infinity, or `± mantissa * 2 ^ exponent`. -/
inductive Binary64 where
  | nan
  | infinite (negative : Bool)
  | finite (negative : Bool) (mantissa : Nat) (exponent : Int)
  deriving DecidableEq, Repr

namespace Binary64

/-- The bit above the stored fraction of a mantissa: all doubles but the smallest have it. -/
def hiddenBit : Nat := Nat.pow 2 52

/-- The bit that says that a double is negative. -/
def signBit : Nat := Nat.pow 2 63

/-- The exact number that a double holds. -/
def ofFloat (x : Float) : Binary64 :=
  let bits := x.toBits.toNat
  let negative := decide (bits / signBit = 1)
  let field : Nat := bits / hiddenBit % 2048
  let fraction : Nat := bits % hiddenBit
  if field = 2047 then
    if fraction = 0 then .infinite negative else .nan
  else if field = 0 then .finite negative fraction (-1074)
  else .finite negative (hiddenBit + fraction) ((field : Int) - 1075)

/-- `num / den`, rounded to the nearest natural number and on a tie to the even one. -/
def divNearest (num den : Nat) : Nat :=
  let below := num / den
  let rest := num % den
  if 2 * rest < den then below
  else if den < 2 * rest then below + 1
  else below + below % 2

/-- The rounded quotient is within half a unit of the exact one. -/
theorem divNearest_bounds (num den : Nat) (h : 0 < den) :
    2 * num ≤ den * (2 * divNearest num den + 1) ∧
      den * (2 * divNearest num den) ≤ 2 * num + den := by
  have whole := Nat.div_add_mod num den
  have small := Nat.mod_lt num h
  unfold divNearest
  generalize num / den = q at *
  generalize num % den = r at *
  have double (k : Nat) : den * (2 * k) = 2 * (den * k) := Nat.mul_left_comm ..
  have next : den * (q + 1) = den * q + den := Nat.mul_succ ..
  dsimp only
  split
  · rw [Nat.mul_succ, double]
    omega
  · split
    · rw [Nat.mul_succ, double, next]
      omega
    · rw [Nat.mul_succ, double]
      rcases Nat.mod_two_eq_zero_or_one q with even | odd
      · rw [even, Nat.add_zero]
        omega
      · rw [odd, next]
        omega

/-- The bits of positive infinity: every magnitude that rounds this high is infinite. -/
def infinityBits : Nat :=
  2047 * hiddenBit

/-- `num / (den * 2 ^ e)` as a fraction. -/
def scaleDown (num den : Nat) (e : Int) : Nat × Nat :=
  if 0 ≤ e then (num, den * Nat.pow 2 e.toNat) else (num * Nat.pow 2 (-e).toNat, den)

/-- The exponent of the double nearest to `num / den`: the one that leaves a mantissa of 53 bits,
or the least exponent there is. -/
def exponentFor (num den : Nat) : Int :=
  let guess : Int := (num.log2 : Int) - den.log2 - 52
  let scaled := scaleDown num den guess
  let exact := if scaled.1 < hiddenBit * scaled.2 then guess - 1 else guess
  max exact (-1074)

/-- The bits of the double nearest to the positive fraction `num / den`. A mantissa that rounds up
to the next power of two carries into the exponent field by itself. -/
def nearestBits (num den : Nat) : Nat :=
  let e := exponentFor num den
  let scaled := scaleDown num den e
  min infinityBits ((e + 1074).toNat * hiddenBit + divNearest scaled.1 scaled.2)

/-- The double nearest to `± num / den`; beyond the finite doubles it is an infinity. -/
def nearest (negative : Bool) (num den : Nat) : Float :=
  let magnitude := if num = 0 then 0 else nearestBits num den
  Float.ofBits (UInt64.ofNat ((if negative then signBit else 0) + magnitude))

/-- The number of decimal digits of a natural number. -/
def decimalLength (n : Nat) : Nat :=
  (Nat.toDigits 10 n).length

/-- The double nearest to `± digits * 10 ^ exponent`. A numeral far outside the range of the
doubles is decided by its order of magnitude. -/
def ofDecimal (negative : Bool) (digits : Nat) (exponent : Int) : Float :=
  let order := exponent + decimalLength digits
  if digits = 0 ∨ order < -330 then nearest negative 0 1
  else if 310 < order then nearest negative (Nat.pow 10 310) 1
  else if 0 ≤ exponent then nearest negative (digits * Nat.pow 10 exponent.toNat) 1
  else nearest negative digits (Nat.pow 10 (-exponent).toNat)

/-- The double nearest to an integer. -/
def ofInt (i : Int) : Float :=
  nearest (i < 0) i.natAbs 1

end Binary64

end SlotFlow

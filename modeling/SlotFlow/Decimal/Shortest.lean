import SlotFlow.Decimal.Binary64
/-!
# The shortest decimal that reads back

Of all decimals that round to a given double, the ones with the fewest digits, and of those the
nearest to the double. `Decimal.shortest` looks for it on grids `10 ^ k` that become finer and
finer; on the first grid that has a point inside the double's rounding interval, one of the two
neighbours of the double is such a point.
-/

namespace SlotFlow

/-- Which of two equally near neighbours on a grid is taken. -/
inductive Tie where
  | upward
  | toEven
  deriving DecidableEq, Repr

/-- The number `digits * 10 ^ exponent`. -/
structure Decimal where
  digits : Nat
  exponent : Int
  deriving DecidableEq, Repr

/-- The numbers that round to a double: `low`, `value` and `high` are in quarters of its last place
times `scale / unit`, and the ends belong to the interval if `closed`. -/
structure RoundingInterval where
  low : Nat
  value : Nat
  high : Nat
  closed : Bool

namespace RoundingInterval

/-- The numbers that round to the double with this mantissa and exponent. Below a power of two the
doubles lie twice as dense. -/
def of (mantissa : Nat) (exponent : Int) : RoundingInterval :=
  { low := 4 * mantissa - (if mantissa = Binary64.hiddenBit ∧ -1074 < exponent then 1 else 2)
    value := 4 * mantissa
    high := 4 * mantissa + 2
    closed := mantissa % 2 = 0 }

/-- Whether `n` grid steps lie in the interval, where a quarter of the last place is `scale` and a
grid step is `unit`. -/
def holds (interval : RoundingInterval) (scale unit n : Nat) : Bool :=
  if interval.closed then interval.low * scale ≤ n * unit && n * unit ≤ interval.high * scale
  else interval.low * scale < n * unit && n * unit < interval.high * scale

/-- The multiple of `unit` in the interval that is nearest to the value, if there is one. -/
def nearestOn (interval : RoundingInterval) (tie : Tie) (scale unit : Nat) : Option Nat :=
  let value := interval.value * scale
  let below := value / unit
  match interval.holds scale unit below, interval.holds scale unit (below + 1) with
  | false, false => none
  | true, false => some below
  | false, true => some (below + 1)
  | true, true =>
    let rest := 2 * (value % unit)
    if rest < unit then some below
    else if unit < rest then some (below + 1)
    else match tie with
      | .upward => some (below + 1)
      | .toEven => some (below + below % 2)

end RoundingInterval

namespace Decimal

/-- `10 ^ k` split into what multiplies a numerator and what multiplies a denominator. -/
def splitPower (base : Nat) (k : Int) : Nat × Nat :=
  if 0 ≤ k then (base.pow k.toNat, 1) else (1, base.pow (-k).toNat)

/-- Looks on the grids `10 ^ k`, `10 ^ (k - 1)`, … for a decimal in the interval, whose quarter
places are `2 ^ (exponent - 2)` each. -/
def search (interval : RoundingInterval) (tie : Tie) (exponent : Int) : Nat → Int → Decimal
  | 0, k => ⟨0, k⟩
  | grids + 1, k =>
    let two := splitPower 2 (exponent - 2)
    let ten := splitPower 10 k
    match interval.nearestOn tie (two.1 * ten.2) (ten.1 * two.2) with
    | some n => ⟨n, k⟩
    | none => search interval tie exponent grids (k - 1)

/-- Moves up to `fuel` trailing zeros of the digits into the exponent. -/
def stripZeros : Nat → Decimal → Decimal
  | 0, d => d
  | fuel + 1, d =>
    if d.digits % 10 = 0 ∧ d.digits ≠ 0 then stripZeros fuel ⟨d.digits / 10, d.exponent + 1⟩ else d

/-- The decimal with the fewest digits that reads back as the double `mantissa * 2 ^ exponent`. The
first grid has a step above the double, and seventeen digits always suffice. -/
def shortest (tie : Tie) (mantissa : Nat) (exponent : Int) : Decimal :=
  let order : Int := (mantissa.log2 + exponent) * 30103 / 100000 + 2
  stripZeros 20 (search (.of mantissa exponent) tie exponent 24 order)

end Decimal

end SlotFlow

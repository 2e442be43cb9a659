import SlotFlow.Decimal.Shortest
/-!
# How doubles are written

A `NumberFormat` says when a double is written positionally and when with an exponent, and how its
special values are spelt. The three formats of this library are `NumberFormat.program` (generated
programs), `NumberFormat.message` (messages and displayed values) and `NumberFormat.json`.
-/

namespace SlotFlow

/-- The decisions of a way to write doubles. -/
structure NumberFormat where
  /-- Which of two equally short and equally near decimals is written. -/
  tie : Tie
  /-- The orders of magnitude written positionally, from the first up to but without the second;
  `none` for all of them. -/
  positional : Option (Int × Int)
  /-- Whether a positional integer ends in a point and a zero. -/
  keepsPoint : Bool
  /-- What stands before an exponent that is not negative. -/
  exponentSign : String
  nan : String
  infinity : String

namespace NumberFormat

/-- Digits and a point that stands after the first `point` of them. -/
def placePoint (digits : List Char) (point : Int) (keepsPoint : Bool) : List Char :=
  if point ≤ 0 then '0' :: '.' :: (List.replicate (-point).toNat '0' ++ digits)
  else
    let whole := digits.take point.toNat
    let padding := List.replicate (point.toNat - digits.length) '0'
    match digits.drop point.toNat with
    | [] => whole ++ padding ++ (if keepsPoint then ['.', '0'] else [])
    | rest => whole ++ '.' :: rest

/-- One digit, the others after a point, and the power of ten. -/
def withExponent (digits : List Char) (order : Int) (sign : String) : List Char :=
  let mantissa := match digits with
    | first :: second :: rest => first :: '.' :: second :: rest
    | _ => digits
  mantissa ++ 'e' :: ((if order < 0 then "" else sign).toList ++ (toString order).toList)

/-- The text of a positive decimal. -/
def magnitude (format : NumberFormat) (d : Decimal) : List Char :=
  let digits := Nat.toDigits 10 d.digits
  let order := d.exponent + digits.length - 1
  let positional := match format.positional with
    | none => true
    | some (least, bound) => least ≤ order && order < bound
  if positional then placePoint digits (order + 1) format.keepsPoint
  else withExponent digits order format.exponentSign

/-- The text of a double. -/
def render (format : NumberFormat) (x : Float) : String :=
  let signed (negative : Bool) (text : String) := if negative then "-" ++ text else text
  match Binary64.ofFloat x with
  | .nan => format.nan
  | .infinite negative => signed negative format.infinity
  | .finite negative mantissa exponent =>
    signed negative <|
      if mantissa = 0 then (if format.keepsPoint then "0.0" else "0")
      else String.ofList (format.magnitude (.shortest format.tie mantissa exponent))

/-- Programs write a double positionally from `0.0001` to below `1e16`, always with a point. -/
def program : NumberFormat where
  tie := .upward
  positional := some (-4, 16)
  keepsPoint := true
  exponentSign := ""
  nan := "NaN"
  infinity := "inf"

/-- Messages write every double positionally, an integral one without a point. -/
def message : NumberFormat where
  tie := .upward
  positional := none
  keepsPoint := false
  exponentSign := ""
  nan := "NaN"
  infinity := "inf"

/-- JSON writes a double positionally from `0.00001` to below `1e16`, and its exponents carry a
sign. It has no spelling for the doubles that are not finite, and writes them as absent. -/
def json : NumberFormat where
  tie := .toEven
  positional := some (-5, 16)
  keepsPoint := true
  exponentSign := "+"
  nan := "null"
  infinity := "null"

end NumberFormat

end SlotFlow

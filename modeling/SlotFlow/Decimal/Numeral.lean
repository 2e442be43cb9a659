import SlotFlow.Decimal.Binary64
/-!
# Reading decimal numerals

The texts that stand for a double: `[+-] digits [. digits] [e [+-] digits]` with at least one digit
before the exponent, and the words `inf`, `infinity` and `nan` in any case, with or without a sign.
-/

namespace SlotFlow.Numeral

/-- The value of a list of decimal digits. -/
def digitsValue (cs : List Char) : Nat :=
  cs.foldl (fun n c => 10 * n + (c.toNat - '0'.toNat)) 0

/-- Splits off the sign: whether it is a minus, and what follows. -/
def takeSign : List Char → Bool × List Char
  | '-' :: rest => (true, rest)
  | '+' :: rest => (false, rest)
  | rest => (false, rest)

/-- The exponent part of a numeral, which may be missing; it has to take up the whole text. -/
def exponent? : List Char → Option Int
  | [] => some 0
  | mark :: rest =>
    if mark = 'e' ∨ mark = 'E' then
      let (negative, digits) := takeSign rest
      if digits ≠ [] ∧ digits.all Char.isDigit then
        some (if negative then -(digitsValue digits : Int) else digitsValue digits)
      else none
    else none

/-- A numeral without its sign: its digits as one number, and the power of ten they count. -/
def unsigned? (cs : List Char) : Option (Nat × Int) := do
  let whole := cs.takeWhile Char.isDigit
  let afterWhole := cs.dropWhile Char.isDigit
  let (places, rest) := match afterWhole with
    | '.' :: rest => (rest.takeWhile Char.isDigit, rest.dropWhile Char.isDigit)
    | rest => ([], rest)
  guard (whole ++ places ≠ [])
  let e ← exponent? rest
  return (digitsValue (whole ++ places), e - places.length)

/-- The double nearest to what a text stands for. -/
def toFloat? (text : String) : Option Float :=
  let (negative, cs) := takeSign text.toList
  let word := String.ofList (cs.map Char.toLower)
  if word = "nan" then some (0.0 / 0.0)
  else if word = "inf" ∨ word = "infinity" then some (if negative then -1.0 / 0.0 else 1.0 / 0.0)
  else (unsigned? cs).map fun (digits, e) => Binary64.ofDecimal negative digits e

end SlotFlow.Numeral

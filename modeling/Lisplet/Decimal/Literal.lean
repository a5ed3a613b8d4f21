import Lisplet.Decimal.Writer

/-! How numbers are read: integers as a sign and digits, reals as a sign, digits with a point and an
exponent, rounded to the nearest binary64 number. -/

namespace Lisplet.Decimal

def digitsValue (digits : List Char) : Nat :=
  Nat.ofDigitChars 10 digits 0

def takeSign : List Char → Bool × List Char
  | '-' :: cs => (true, cs)
  | '+' :: cs => (false, cs)
  | cs => (false, cs)

def signed (negative : Bool) (n : Nat) : Int :=
  if negative then -n else n

def readInteger? (cs : List Char) : Option Int :=
  let (negative, digits) := takeSign cs
  if digits ≠ [] ∧ digits.all Char.isDigit then some (signed negative (digitsValue digits))
  else none

def readExponent? : List Char → Option Int
  | [] => some 0
  | 'e' :: cs => readInteger? cs
  | 'E' :: cs => readInteger? cs
  | _ => none

def takeDecimal (cs : List Char) : List Char × List Char × List Char :=
  let whole := cs.takeWhile Char.isDigit
  match cs.dropWhile Char.isDigit with
  | '.' :: rest => (whole, rest.takeWhile Char.isDigit, rest.dropWhile Char.isDigit)
  | rest => (whole, [], rest)

def readScientific? (cs : List Char) : Option Scientific :=
  match takeDecimal cs with
  | (whole, fraction, rest) =>
    if whole = [] ∧ fraction = [] then none
    else (readExponent? rest).map fun exponent =>
      ⟨digitsValue (whole ++ fraction), exponent - fraction.length⟩

def Scientific.pattern (x : Scientific) : Nat :=
  -- far outside the range of binary64 the number of digits decides
  let leading := x.exponent + (Nat.toDigits 10 x.significand).length
  if x.significand = 0 ∨ leading < -330 then 0
  else if 310 < leading then infinityPattern
  else if 0 ≤ x.exponent then
    nearestPattern (x.significand * tenTo x.exponent.toNat * halfUnits) 1
  else nearestPattern (x.significand * halfUnits) (tenTo (-x.exponent).toNat)

def readReal? (cs : List Char) : Option Float :=
  let (negative, rest) := takeSign cs
  (readScientific? rest).map fun x => withSign negative x.pattern

def ofText? (s : String) : Option Float :=
  let (negative, rest) := takeSign s.toList
  if rest = realStyle.infinity.toList then some (withSign negative infinityPattern)
  else if s = realStyle.notANumber then some (0.0 / 0.0)
  else readReal? s.toList

end Lisplet.Decimal

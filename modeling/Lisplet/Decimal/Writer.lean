import Lisplet.Decimal.Shortest

/-! How numbers are written. -/

namespace Lisplet.Decimal

def integerText : Int → List Char
  | .ofNat n => Nat.toDigits 10 n
  | .negSucc n => '-' :: Nat.toDigits 10 (n + 1)

def countText (n : Nat) : String :=
  String.ofList (Nat.toDigits 10 n)

structure Style where
  leastPlain : Int
  greatestPlain : Int
  infinity : String
  notANumber : String

def realStyle : Style := ⟨-4, 15, "inf", "NaN"⟩

def zeros (n : Nat) : List Char :=
  List.replicate n '0'

def plainText (digits : List Char) (point : Int) : List Char :=
  if point ≤ 0 then '0' :: '.' :: zeros (-point).toNat ++ digits
  else if digits.length ≤ point.toNat then
    digits ++ zeros (point.toNat - digits.length) ++ ['.', '0']
  else digits.take point.toNat ++ '.' :: digits.drop point.toNat

def markedText (digits : List Char) (exponent : Int) : List Char :=
  let fraction := if digits.length ≤ 1 then [] else '.' :: digits.drop 1
  digits.take 1 ++ fraction ++ 'e' :: integerText exponent

def Style.positive (style : Style) (x : Scientific) : List Char :=
  let digits := Nat.toDigits 10 x.significand
  let leading := x.exponent + digits.length - 1
  if style.leastPlain ≤ leading ∧ leading ≤ style.greatestPlain then plainText digits (leading + 1)
  else markedText digits leading

def Style.magnitude (style : Style) (pattern : Nat) : List Char :=
  if pattern = 0 then ['0', '.', '0']
  else if pattern < infinityPattern then style.positive (shortest pattern)
  else style.infinity.toList

def Style.write (style : Style) (x : Float) : List Char :=
  if infinityPattern < patternOf x then style.notANumber.toList
  else if isNegative x then '-' :: style.magnitude (patternOf x)
  else style.magnitude (patternOf x)

def realText (x : Float) : List Char :=
  realStyle.write x

end Lisplet.Decimal

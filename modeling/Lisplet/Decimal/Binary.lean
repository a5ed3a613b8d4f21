import Lisplet.Decimal.Bisect

/-! Binary64 numbers as bit patterns. The patterns of the non-negative numbers are ordered as the
numbers are, so a real number is rounded by finding the last pattern whose interval starts at or
below it. -/

namespace Lisplet.Decimal

def infinityPattern : Nat := 0x7FF0000000000000

/-- The number with a given pattern, counted in units of `2 ^ -1074`. -/
def units (pattern : Nat) : Nat :=
  if pattern / twoTo 52 = 0 then pattern % twoTo 52
  else (twoTo 52 + pattern % twoTo 52) * twoTo (pattern / twoTo 52 - 1)

/-- Where the interval of reals that round to a pattern begins, in half units. -/
def intervalStart : Nat → Nat
  | 0 => 0
  | pattern + 1 => units pattern + units (pattern + 1)

def intervalEnd (pattern : Nat) : Nat :=
  units pattern + units (pattern + 1)

def startsBy (pattern num den : Nat) : Bool :=
  -- a point between two intervals belongs to the one of the even pattern
  if pattern % 2 = 0 then intervalStart pattern * den ≤ num else intervalStart pattern * den < num

def endsAfter (pattern num den : Nat) : Bool :=
  if pattern % 2 = 0 then num ≤ intervalEnd pattern * den else num < intervalEnd pattern * den

def roundsTo (pattern num den : Nat) : Bool :=
  startsBy pattern num den && endsAfter pattern num den

/-- The pattern that `num / den` half units round to, at most the pattern of infinity. -/
def nearestPattern (num den : Nat) : Nat :=
  bisect (fun pattern => pattern ≤ infinityPattern && startsBy pattern num den) 63

def halfUnits : Nat := twoTo 1075

def withSign (negative : Bool) (pattern : Nat) : Float :=
  Float.ofBits (if negative then pattern + twoTo 63 else pattern).toUInt64

def patternOf (x : Float) : Nat :=
  x.toBits.toNat % twoTo 63

def isNegative (x : Float) : Bool :=
  twoTo 63 ≤ x.toBits.toNat

end Lisplet.Decimal

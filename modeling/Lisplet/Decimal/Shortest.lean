import Lisplet.Decimal.Binary

/-! The shortest decimal that rounds to a binary64 number: the coarsest grid of multiples of a power
of ten with a point in the number's interval, and the point of that grid nearest to the number. -/

namespace Lisplet.Decimal

/-- The finest grid holds the multiples of `10 ^ -324`; grid `g` those of `10 ^ (g - 324)`. -/
def finestExponent : Int := -324

def gridStep (grid : Nat) : Nat :=
  tenTo grid * halfUnits

def below (pattern grid : Nat) : Nat :=
  2 * units pattern * tenTo 324 / gridStep grid

def gridPointIn (pattern grid count : Nat) : Bool :=
  roundsTo pattern (count * gridStep grid) (tenTo 324)

def gridMeets (pattern grid : Nat) : Bool :=
  gridPointIn pattern grid (below pattern grid) ||
    gridPointIn pattern grid (below pattern grid + 1)

def nearerAbove (pattern grid : Nat) : Bool :=
  let step := gridStep grid
  step ≤ 2 * (2 * units pattern * tenTo 324 - below pattern grid * step)

structure Scientific where
  significand : Nat
  exponent : Int
deriving DecidableEq

def coarsestGrid (pattern : Nat) : Nat :=
  bisect (gridMeets pattern) 10

def shortest (pattern : Nat) : Scientific :=
  let grid := coarsestGrid pattern
  let low := below pattern grid
  let significand :=
    if gridPointIn pattern grid low && !(gridPointIn pattern grid (low + 1) &&
      nearerAbove pattern grid) then low else low + 1
  ⟨significand, finestExponent + grid⟩

end Lisplet.Decimal

/-! Powers of two and ten. -/

namespace Lisplet.Decimal

def twoTo (n : Nat) : Nat :=
  Nat.pow 2 n

def tenTo (n : Nat) : Nat :=
  Nat.pow 10 n

theorem twoTo_succ (n : Nat) : twoTo (n + 1) = twoTo n + twoTo n :=
  Nat.mul_two _

end Lisplet.Decimal

import Lisplet.Decimal.Power

/-! The greatest number with a property that holds of every smaller number as well. -/

namespace Lisplet.Decimal

def bisectFrom (p : Nat → Bool) : Nat → Nat → Nat
  | 0, low => low
  | bits + 1, low =>
    if p (low + twoTo bits) then bisectFrom p bits (low + twoTo bits) else bisectFrom p bits low

/-- The greatest number below `2 ^ bits` with the property `p`, if `p` holds of `0` and of every
number below one that has it. -/
def bisect (p : Nat → Bool) (bits : Nat) : Nat :=
  bisectFrom p bits 0

theorem bisectFrom_spec {p : Nat → Bool} (bits low : Nat) (hlow : p low = true)
    (hhigh : p (low + twoTo bits) = false) :
    p (bisectFrom p bits low) = true ∧ p (bisectFrom p bits low + 1) = false := by
  induction bits generalizing low with
  | zero => exact ⟨hlow, hhigh⟩
  | succ bits ih =>
    rw [bisectFrom]
    split
    next h =>
      refine ih (low + twoTo bits) h ?_
      simpa [twoTo_succ, Nat.add_assoc] using hhigh
    next h => exact ih low hlow (by simpa using h)

theorem bisect_spec {p : Nat → Bool} (down : ∀ m n, m ≤ n → p n = true → p m = true)
    {bits : Nat} (hzero : p 0 = true) (hhigh : p (twoTo bits) = false) (n : Nat) :
    p n = true ↔ n ≤ bisect p bits := by
  have h := bisectFrom_spec bits 0 hzero (by simpa using hhigh)
  refine ⟨fun hn => ?_, fun hn => down _ _ hn h.1⟩
  by_cases hle : n ≤ bisect p bits
  · exact hle
  · have hlt : bisectFrom p bits 0 + 1 ≤ n := by
      have : ¬ n ≤ bisectFrom p bits 0 := hle
      omega
    have := down _ _ hlt hn
    simp [h.2] at this

end Lisplet.Decimal

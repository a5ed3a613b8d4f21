/-! Integers of 64 bits. Results are computed exactly and kept only if they fit. -/

namespace Lisplet.Integer

def fit? (n : Int) : Option Int64 :=
  if -0x8000000000000000 ≤ n ∧ n < 0x8000000000000000 then some (Int64.ofInt n) else none

theorem fit?_eq_some_iff {n : Int} {m : Int64} : fit? n = some m ↔ m.toInt = n := by
  unfold fit?
  split
  next h =>
    rw [Option.some_inj]
    refine ⟨fun e => ?_, fun e => ?_⟩
    · rw [← e, Int64.toInt_ofInt_of_le h.1 h.2]
    · rw [← e, Int64.ofInt_toInt]
  next h =>
    refine ⟨nofun, fun e => absurd ?_ h⟩
    rw [← e]
    exact ⟨Int64.le_toInt m, Int64.toInt_lt m⟩

def greatest : Int64 := 0x7FFFFFFFFFFFFFFF

def ofCount (n : Nat) : Int64 :=
  (fit? n).getD greatest

end Lisplet.Integer

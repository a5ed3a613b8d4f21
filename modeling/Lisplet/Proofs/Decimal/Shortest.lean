import Lisplet.Proofs.Decimal.Rounding

/-! The shortest decimal of a pattern rounds to the pattern, and so does every decimal of the same
value. -/

namespace Lisplet.Decimal

variable {pattern : ℕ} {x y : Scientific}

/-! A decimal as a quotient of half units. -/

def Scientific.num (x : Scientific) : ℕ :=
  x.significand * tenTo x.exponent.toNat * halfUnits

def Scientific.den (x : Scientific) : ℕ :=
  tenTo (-x.exponent).toNat

def Scientific.RoundsTo (x : Scientific) (pattern : ℕ) : Prop :=
  roundsTo pattern x.num x.den = true

lemma Scientific.den_pos (x : Scientific) : 0 < x.den :=
  tenTo_pos _

lemma Scientific.RoundsTo.of_eq (h : x.RoundsTo pattern) (he : x.num * y.den = y.num * x.den) :
    y.RoundsTo pattern := by
  rw [Scientific.RoundsTo, ← roundsTo_congr x.den_pos y.den_pos he]
  exact h

lemma lt_of_tenTo_lt {m n : ℕ} (h : tenTo m < tenTo n) : m < n :=
  (Nat.pow_lt_pow_iff_right (by decide)).1 h

lemma significand_lt (x : Scientific) :
    x.significand < tenTo (Nat.toDigits 10 x.significand).length :=
  (Nat.length_toDigits_le_iff (by decide) Nat.length_toDigits_pos).1 le_rfl

lemma le_significand (h : 0 < x.significand) :
    tenTo ((Nat.toDigits 10 x.significand).length - 1) ≤ x.significand := by
  rcases Nat.eq_zero_or_pos ((Nat.toDigits 10 x.significand).length - 1) with h0 | hpos
  · rw [h0]
    exact h
  · have hlen := Nat.length_toDigits_pos (b := 10) (n := x.significand)
    by_contra hlt
    have hle := (Nat.length_toDigits_le_iff (by decide) hpos).2 (Nat.lt_of_not_le hlt)
    omega

lemma halfUnits_lt : halfUnits < tenTo 324 := by
  rw [halfUnits, twoTo_eq, tenTo_eq]
  decide +kernel

lemma twoTo_lt : twoTo 1024 < tenTo 309 := by
  rw [twoTo_eq, tenTo_eq]
  decide +kernel

lemma Scientific.RoundsTo.bounds (hp : 0 < pattern) (h : x.RoundsTo pattern)
    (hlt : pattern < infinityPattern) :
    x.den ≤ x.num ∧ x.significand * tenTo x.exponent.toNat ≤ twoTo 1024 * x.den := by
  obtain ⟨hs, he⟩ : startsBy pattern x.num x.den = true ∧ endsAfter pattern x.num x.den = true := by
    simpa [Scientific.RoundsTo, roundsTo] using h
  have htwo : twoTo 2099 = twoTo 1024 * halfUnits := by rw [halfUnits, ← twoTo_add]
  refine ⟨(Nat.le_mul_of_pos_left _ (intervalStart_pos hp)).trans (startsBy_le hs), ?_⟩
  refine Nat.le_of_mul_le_mul_right ?_ halfUnits_pos
  calc x.num ≤ intervalEnd pattern * x.den := endsAfter_le he
    _ ≤ twoTo 2099 * x.den := Nat.mul_le_mul_right _ (intervalEnd_le hlt)
    _ = twoTo 1024 * x.den * halfUnits := by rw [htwo, Nat.mul_right_comm]

lemma Scientific.RoundsTo.significand_pos (hp : 0 < pattern) (hlt : pattern < infinityPattern)
    (h : x.RoundsTo pattern) : 0 < x.significand := by
  by_contra h0
  have hlow := (h.bounds hp hlt).1
  have hden := x.den_pos
  simp only [num, Nat.eq_zero_of_not_pos h0, Nat.zero_mul] at hlow
  omega

lemma Scientific.RoundsTo.leading_bounds (hp : 0 < pattern) (hlt : pattern < infinityPattern)
    (h : x.RoundsTo pattern) :
    -324 < x.exponent + (Nat.toDigits 10 x.significand).length ∧
      x.exponent + (Nat.toDigits 10 x.significand).length ≤ 310 := by
  obtain ⟨hlow, hhigh⟩ := h.bounds hp hlt
  have hupper := significand_lt x
  have hlower := le_significand (h.significand_pos hp hlt)
  generalize (Nat.toDigits 10 x.significand).length = digits at hupper hlower ⊢
  have hleast := lt_of_tenTo_lt <|
    calc tenTo (-x.exponent).toNat ≤ x.num := hlow
      _ < tenTo digits * tenTo x.exponent.toNat * tenTo 324 := Nat.mul_lt_mul_of_lt_of_lt
          (Nat.mul_lt_mul_of_pos_right hupper (tenTo_pos _)) halfUnits_lt
      _ = tenTo (digits + x.exponent.toNat + 324) := by rw [tenTo_add, tenTo_add]
  have hgreatest := lt_of_tenTo_lt <|
    calc tenTo (digits - 1 + x.exponent.toNat) = tenTo (digits - 1) * tenTo x.exponent.toNat :=
          tenTo_add ..
      _ ≤ x.significand * tenTo x.exponent.toNat := Nat.mul_le_mul_right _ hlower
      _ ≤ twoTo 1024 * x.den := hhigh
      _ < tenTo 309 * x.den := Nat.mul_lt_mul_of_pos_right twoTo_lt x.den_pos
      _ = tenTo (309 + (-x.exponent).toNat) := (tenTo_add ..).symm
  omega

theorem Scientific.RoundsTo.pattern_eq (hp : 0 < pattern) (hlt : pattern < infinityPattern)
    (h : x.RoundsTo pattern) : x.pattern = pattern := by
  obtain ⟨hlow, hhigh⟩ := h.leading_bounds hp hlt
  have hs := h.significand_pos hp hlt
  have hnearest := nearestPattern_eq x.den_pos hlt h
  rw [Scientific.pattern, if_neg (by omega), if_neg (by omega)]
  split
  · next he =>
    rw [den, show (-x.exponent).toNat = 0 by omega] at hnearest
    exact hnearest
  · next he =>
    rw [num, show x.exponent.toNat = 0 by omega, show tenTo 0 = 1 from rfl, Nat.mul_one] at hnearest
    exact hnearest

/-! The grids of decimals. -/

lemma bisectFrom_holds {p : ℕ → Bool} (bits low : ℕ) (h : p low = true) :
    p (bisectFrom p bits low) = true := by
  induction bits generalizing low with
  | zero => exact h
  | succ bits ih =>
    rw [bisectFrom]
    split
    · next hp => exact ih _ hp
    · exact ih _ h

lemma gridStep_pos (grid : ℕ) : 0 < gridStep grid :=
  Nat.mul_pos (tenTo_pos grid) halfUnits_pos

lemma gridStep_zero_le : gridStep 0 ≤ tenTo 324 := by
  rw [gridStep, halfUnits, twoTo_eq, tenTo_eq, tenTo_eq]
  decide +kernel

lemma gridPointIn_finest (hp : 0 < pattern) : gridPointIn pattern 0 (below pattern 0) = true := by
  obtain ⟨q, rfl⟩ := Nat.exists_eq_succ_of_ne_zero hp.ne'
  have hq := units_lt_succ q
  have hnext : units (q + 1) < units (q + 2) := units_lt_succ (q + 1)
  have hlow : (units q + units (q + 1)) * tenTo 324 + tenTo 324 ≤
      2 * units (q + 1) * tenTo 324 := by
    rw [← Nat.succ_mul]
    exact Nat.mul_le_mul_right _ (by omega)
  have hhigh : 2 * units (q + 1) * tenTo 324 < (units (q + 1) + units (q + 2)) * tenTo 324 :=
    Nat.mul_lt_mul_of_pos_right (by omega) (tenTo_pos _)
  have hstep := gridStep_pos 0
  have hle := gridStep_zero_le
  have hdown := Nat.div_mul_le_self (2 * units (q + 1) * tenTo 324) (gridStep 0)
  have hup := Nat.lt_div_mul_add (a := 2 * units (q + 1) * tenTo 324) hstep
  -- the point is at most one step below the number, and the interval goes further down than that
  have hstart : intervalStart (q + 1) * tenTo 324 < below (q + 1) 0 * gridStep 0 := by
    rw [below, intervalStart]
    omega
  have hend : below (q + 1) 0 * gridStep 0 < intervalEnd (q + 1) * tenTo 324 :=
    hdown.trans_lt hhigh
  rw [gridPointIn, roundsTo, Bool.and_eq_true]
  exact ⟨startsBy_of_lt hstart, endsAfter_of_lt hend⟩

lemma gridMeets_coarsestGrid (hp : 0 < pattern) :
    gridMeets pattern (coarsestGrid pattern) = true := by
  refine bisectFrom_holds 10 0 ?_
  rw [gridMeets, gridPointIn_finest hp, Bool.true_or]

lemma roundsTo_of_gridPointIn {grid count : ℕ} (h : gridPointIn pattern grid count = true) :
    (⟨count, finestExponent + grid⟩ : Scientific).RoundsTo pattern := by
  have hexp : grid + (-(finestExponent + grid)).toNat = (finestExponent + grid).toNat + 324 := by
    rw [finestExponent]
    omega
  rw [Scientific.RoundsTo, ← roundsTo_congr (tenTo_pos 324) (Scientific.den_pos _)]
  · exact h
  · simp only [Scientific.num, Scientific.den, gridStep]
    calc count * (tenTo grid * halfUnits) * tenTo (-(finestExponent + grid)).toNat
        = count * halfUnits * tenTo (grid + (-(finestExponent + grid)).toNat) := by
          rw [tenTo_add]
          ring
      _ = count * tenTo (finestExponent + grid).toNat * halfUnits * tenTo 324 := by
          rw [hexp, tenTo_add]
          ring

lemma gridPointIn_shortest (hp : 0 < pattern) :
    gridPointIn pattern (coarsestGrid pattern) (shortest pattern).significand = true := by
  have h := gridMeets_coarsestGrid hp
  rw [gridMeets, Bool.or_eq_true] at h
  simp only [shortest]
  split
  · next hlow =>
    rw [Bool.and_eq_true] at hlow
    exact hlow.1
  · next hlow =>
    rcases h with h | h
    · simp only [h, Bool.true_and, Bool.not_eq_true', Bool.and_eq_false_iff, not_or,
        Bool.not_eq_false] at hlow
      exact hlow.1
    · exact h

theorem shortest_roundsTo (hp : 0 < pattern) : (shortest pattern).RoundsTo pattern :=
  roundsTo_of_gridPointIn (gridPointIn_shortest hp)

end Lisplet.Decimal

import Lisplet.Decimal.Literal
import Mathlib.Order.Monotone.Basic
import Mathlib.Tactic.Ring

/-! Rounding to binary64. The intervals of the patterns follow each other, so a number rounds to the
one pattern whose interval holds it, and this depends on the value of the number alone. -/

namespace Lisplet.Decimal

lemma twoTo_eq (n : ℕ) : twoTo n = 2 ^ n := rfl

lemma tenTo_eq (n : ℕ) : tenTo n = 10 ^ n := rfl

lemma tenTo_pos (n : ℕ) : 0 < tenTo n :=
  Nat.pow_pos (by decide)

lemma twoTo_add (m n : ℕ) : twoTo (m + n) = twoTo m * twoTo n :=
  Nat.pow_add 2 m n

lemma tenTo_add (m n : ℕ) : tenTo (m + n) = tenTo m * tenTo n :=
  Nat.pow_add 10 m n

lemma twoTo_pos (n : ℕ) : 0 < twoTo n :=
  Nat.two_pow_pos n

lemma halfUnits_pos : 0 < halfUnits :=
  twoTo_pos 1075

/-! Units and intervals. -/

lemma units_of_eq {pattern e f : ℕ} (h : pattern = e * 2 ^ 52 + f) (hf : f < 2 ^ 52) :
    units pattern = if e = 0 then f else (2 ^ 52 + f) * 2 ^ (e - 1) := by
  have hdiv : pattern / 2 ^ 52 = e := by omega
  have hmod : pattern % 2 ^ 52 = f := by omega
  simp only [units, twoTo_eq, hdiv, hmod]

lemma units_lt_succ (pattern : ℕ) : units pattern < units (pattern + 1) := by
  obtain ⟨e, f, hf, h⟩ : ∃ e f, f < 2 ^ 52 ∧ pattern = e * 2 ^ 52 + f :=
    ⟨pattern / 2 ^ 52, pattern % 2 ^ 52, Nat.mod_lt _ (by decide), by omega⟩
  -- the mantissa grows, or it is full and the exponent grows
  by_cases hlast : f + 1 < 2 ^ 52
  · have hsucc : pattern + 1 = e * 2 ^ 52 + (f + 1) := by omega
    rw [units_of_eq h hf, units_of_eq hsucc hlast]
    split
    · omega
    · exact Nat.mul_lt_mul_of_pos_right (by omega) (Nat.two_pow_pos _)
  · have hsucc : pattern + 1 = (e + 1) * 2 ^ 52 + 0 := by omega
    rw [units_of_eq hsucc (by decide), if_neg e.succ_ne_zero, units_of_eq h hf]
    cases e with
    | zero => simpa using hf
    | succ k =>
      rw [if_neg k.succ_ne_zero, Nat.add_sub_cancel, Nat.add_sub_cancel]
      calc (2 ^ 52 + f) * 2 ^ k < (2 ^ 52 + 2 ^ 52) * 2 ^ k :=
            Nat.mul_lt_mul_of_pos_right (by omega) (Nat.two_pow_pos k)
        _ = (2 ^ 52 + 0) * 2 ^ (k + 1) := by ring

lemma units_strictMono : StrictMono units :=
  strictMono_nat_of_lt_succ units_lt_succ

lemma intervalStart_succ (pattern : ℕ) : intervalStart (pattern + 1) = intervalEnd pattern := rfl

lemma intervalStart_strictMono : StrictMono intervalStart := by
  refine strictMono_nat_of_lt_succ fun pattern => ?_
  cases pattern with
  | zero => simp [intervalStart, units, twoTo]
  | succ pattern =>
    have h := units_lt_succ pattern
    have h' := units_lt_succ (pattern + 1)
    simp only [intervalStart]
    omega

lemma intervalStart_pos {pattern : ℕ} (h : 0 < pattern) : 0 < intervalStart pattern :=
  (Nat.zero_le _).trans_lt (intervalStart_strictMono h)

lemma units_succ_mul (e : ℕ) : units ((e + 1) * 2 ^ 52) = twoTo (52 + e) := by
  rw [units_of_eq (Nat.add_zero _).symm (by decide), if_neg e.succ_ne_zero, Nat.add_zero,
    Nat.add_sub_cancel, twoTo_eq, Nat.pow_add]

lemma intervalEnd_le {pattern : ℕ} (h : pattern < infinityPattern) :
    intervalEnd pattern ≤ twoTo 2099 := by
  have hinf : units infinityPattern = twoTo 2098 := units_succ_mul 2046
  have h₁ := units_strictMono.monotone h.le
  have h₂ := units_strictMono.monotone (Nat.succ_le_of_lt h)
  rw [twoTo_succ 2098, ← hinf]
  exact Nat.add_le_add h₁ h₂

/-! The nearest pattern. -/

variable {pattern num den : ℕ}

lemma startsBy_of_lt (h : intervalStart pattern * den < num) : startsBy pattern num den = true := by
  rw [startsBy]
  split
  · exact decide_eq_true h.le
  · exact decide_eq_true h

lemma startsBy_le (h : startsBy pattern num den = true) : intervalStart pattern * den ≤ num := by
  rw [startsBy] at h
  split at h
  · exact of_decide_eq_true h
  · exact (of_decide_eq_true h).le

lemma endsAfter_of_lt (h : num < intervalEnd pattern * den) : endsAfter pattern num den = true := by
  rw [endsAfter]
  split
  · exact decide_eq_true h.le
  · exact decide_eq_true h

lemma endsAfter_le (h : endsAfter pattern num den = true) : num ≤ intervalEnd pattern * den := by
  rw [endsAfter] at h
  split at h
  · exact of_decide_eq_true h
  · exact (of_decide_eq_true h).le

lemma startsBy_of_le {p q : ℕ} (hden : 0 < den) (hpq : p ≤ q) (h : startsBy q num den = true) :
    startsBy p num den = true := by
  rcases hpq.eq_or_lt with rfl | hlt
  · exact h
  · have hmono := Nat.mul_lt_mul_of_pos_right (intervalStart_strictMono hlt) hden
    exact startsBy_of_lt (hmono.trans_le (startsBy_le h))

lemma not_startsBy_succ (h : endsAfter pattern num den = true) :
    startsBy (pattern + 1) num den = false := by
  rw [endsAfter] at h
  rw [startsBy, intervalStart_succ]
  by_cases heven : pattern % 2 = 0
  · rw [if_pos heven, decide_eq_true_eq] at h
    rw [if_neg (by omega), decide_eq_false_iff_not]
    omega
  · rw [if_neg heven, decide_eq_true_eq] at h
    rw [if_pos (by omega), decide_eq_false_iff_not]
    omega

lemma startsBy_zero : startsBy 0 num den = true := by
  simp [startsBy, intervalStart]

theorem nearestPattern_eq (hden : 0 < den) (hp : pattern < infinityPattern)
    (h : roundsTo pattern num den = true) : nearestPattern num den = pattern := by
  obtain ⟨hs, he⟩ : startsBy pattern num den = true ∧ endsAfter pattern num den = true := by
    simpa [roundsTo] using h
  have hspec (q : ℕ) :
      (decide (q ≤ infinityPattern) && startsBy q num den) = true ↔ q ≤ nearestPattern num den := by
    refine bisect_spec (p := fun q => decide (q ≤ infinityPattern) && startsBy q num den)
      (fun m n hmn hn => ?_) ?_ ?_ q
    · rw [Bool.and_eq_true, decide_eq_true_eq] at hn ⊢
      exact ⟨hmn.trans hn.1, startsBy_of_le hden hmn hn.2⟩
    · simp [startsBy_zero]
    · rw [decide_eq_false (by decide), Bool.false_and]
  apply le_antisymm
  · by_contra hlt
    have hnext := (hspec (pattern + 1)).2 (Nat.lt_of_not_le hlt)
    rw [not_startsBy_succ he, Bool.and_false] at hnext
    cases hnext
  · exact (hspec pattern).1 (by simp [hp.le, hs])

lemma roundsTo_scale {k : ℕ} (hk : 0 < k) :
    roundsTo pattern (num * k) (den * k) = roundsTo pattern num den := by
  simp only [roundsTo, startsBy, endsAfter, ← Nat.mul_assoc, Nat.mul_le_mul_right_iff hk,
    Nat.mul_lt_mul_right hk]

lemma roundsTo_congr {num' den' : ℕ} (hden : 0 < den) (hden' : 0 < den')
    (h : num * den' = num' * den) : roundsTo pattern num den = roundsTo pattern num' den' := by
  rw [← roundsTo_scale hden', h, Nat.mul_comm den den', roundsTo_scale hden]

end Lisplet.Decimal

import Lisplet.Decimal.Literal
import Mathlib

/-! Binary64 numbers and their bit patterns. The model of a number splits its pattern into sign,
exponent and mantissa. Mathlib is imported whole since no module of it has the lemmas on `Float`. -/

namespace Lisplet.Decimal

open Float.Model Float.Model.UnpackedFloat

variable (b : BitVec Format.binary64.numBits)

lemma toNat_unpackExponent : (unpackExponent b).toNat = b.toNat / 2 ^ 52 % 2 ^ 11 := by
  simp [unpackExponent, Nat.shiftRight_eq_div_pow]

lemma toNat_packComponents (s : Sign) (e : BitVec 11) (m : BitVec 52) :
    (packComponents .binary64 s e m).toNat =
      s.toBitVec.toNat * 2 ^ 63 + e.toNat * 2 ^ 52 + m.toNat := by
  rw [packComponents, BitVec.toNat_append, BitVec.toNat_append,
    ← Nat.shiftLeft_add_eq_or_of_lt m.isLt, ← Nat.shiftLeft_add_eq_or_of_lt e.isLt]
  simp only [Nat.shiftLeft_eq]
  omega

lemma isFinite_unpack : (UnpackedFloat.unpack .binary64 b).isFinite = true ↔
    b.toNat % 2 ^ 63 < infinityPattern := by
  have he : unpackExponent b = -1#_ ↔ infinityPattern ≤ b.toNat % 2 ^ 63 := by
    have hones : (-BitVec.ofNat Format.binary64.exponentBits 1).toNat = 2047 := rfl
    rw [← BitVec.toNat_inj, toNat_unpackExponent, hones, infinityPattern]
    omega
  rw [UnpackedFloat.unpack]
  simp only [he]
  split
  · next h =>
    have hlt := Nat.not_lt.2 h
    split
    · exact iff_of_false Bool.false_ne_true hlt
    · exact iff_of_false Bool.false_ne_true hlt
  · next h =>
    have hlt := Nat.lt_of_not_le h
    split
    · split
      · exact iff_of_true rfl hlt
      · exact iff_of_true rfl hlt
    · exact iff_of_true rfl hlt

theorem isFinite_iff {x : Float} : x.isFinite = true ↔ patternOf x < infinityPattern :=
  isFinite_unpack (b := x.toBits.toBitVec)

theorem withSign_patternOf (x : Float) : withSign (isNegative x) (patternOf x) = x := by
  have hlt := x.toBits.toNat_lt
  have hbits : (if isNegative x then patternOf x + twoTo 63 else patternOf x) = x.toBits.toNat := by
    simp only [isNegative, patternOf, decide_eq_true_eq, show twoTo 63 = 2 ^ 63 from rfl]
    split <;> omega
  rw [withSign, hbits, Nat.toUInt64, UInt64.ofNat_toNat, Float.ofBits_toBits]

theorem beq_self_iff {x : Float} : (x == x) = true ↔ x.isNaN = false := by
  rw [Float.isNaN_eq_decide_eq_nan, decide_eq_false_iff_not]
  exact Float.beq_self_iff

theorem beq_self {x : Float} (h : x.isFinite = true) : (x == x) = true := by
  refine Float.beq_self_iff.2 ?_
  rintro rfl
  exact absurd h (by decide)

theorem isFinite_of_beq {x y : Float} (h : (x == y) = true) (hx : x.isFinite = true) :
    y.isFinite = true := by
  have hx : x.toModel.unpack.isFinite = true := hx
  have h : x.toModel.unpack.beq y.toModel.unpack = true := h
  change y.toModel.unpack.isFinite = true
  generalize x.toModel.unpack = u at hx h
  generalize y.toModel.unpack = v at h ⊢
  cases v with
  | zero s => rfl
  | finite s m e hm => rfl
  | notANumber => cases u <;> cases h
  | infinity s =>
    cases u with
    | infinity t => cases hx
    | notANumber => cases hx
    | zero t => cases s <;> cases h
    | finite t m e hm => cases s <;> cases t <;> cases h

end Lisplet.Decimal

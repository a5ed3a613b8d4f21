import Lisplet.Proofs.Decimal.Bits

/-! Reals that stay finite. An integer of 64 bits, its negation and the quotient of two of them lie
far inside the range of binary64, so rounding never reaches infinity. -/

namespace Lisplet.Decimal

open Float.Model Float.Model.UnpackedFloat

def Normal (low high : ℤ) (x : UnpackedFloat) : Prop :=
  ∃ s m e hm, x = .finite s m e hm ∧ 2 ^ 52 ≤ m ∧ m < 2 ^ 53 ∧ low ≤ e ∧ e ≤ high

variable {low high low' high' : ℤ} {x y : UnpackedFloat}

lemma Normal.mono (h : Normal low high x) (hl : low' ≤ low) (hh : high ≤ high') :
    Normal low' high' x := by
  obtain ⟨s, m, e, hm, rfl, hlow, hhigh, hel, heh⟩ := h
  exact ⟨s, m, e, hm, rfl, hlow, hhigh, hl.trans hel, heh.trans hh⟩

lemma Normal.isFinite (h : Normal low high x) : x.isFinite = true := by
  obtain ⟨s, m, e, hm, rfl, _⟩ := h
  rfl

lemma Normal.neg (h : Normal low high x) : Normal low high x.neg := by
  obtain ⟨s, m, e, hm, rfl, h⟩ := h
  exact ⟨-s, m, e, hm, rfl, h⟩

/-! Rounding. -/

lemma mantissa_shiftRight (em : ExtendedMantissa) (k : ℕ) :
    (em >>> k).mantissa = em.mantissa / 2 ^ k := by
  induction k with
  | zero => exact (Nat.div_one _).symm
  | succ k ih =>
    have hstep : (em >>> (k + 1)).mantissa = (em >>> k).mantissa / 2 := rfl
    rw [hstep, ih, Nat.div_div_eq_div_mul, Nat.pow_succ]

lemma roundedMantissa_bounds (em : ExtendedMantissa) :
    em.mantissa ≤ em.roundedMantissa ∧ em.roundedMantissa ≤ em.mantissa + 1 := by
  have hodd := Nat.mod_lt em.mantissa Nat.two_pos
  match em with
  | ⟨m, false, false⟩ => exact ⟨le_rfl, m.le_succ⟩
  | ⟨m, false, true⟩ => exact ⟨le_rfl, m.le_succ⟩
  | ⟨m, true, false⟩ => exact ⟨m.le_add_right _, Nat.add_le_add_left (Nat.le_of_lt_succ hodd) m⟩
  | ⟨m, true, true⟩ => exact ⟨m.le_succ, le_rfl⟩

lemma targetExponent_eq (t : ℤ) : Format.binary64.targetExponent t = max (t - 53) (-1074) := rfl

lemma mantissa_ofMantissaAndAccuracy (m : ℕ) (accuracy : Accuracy) :
    (ExtendedMantissa.ofMantissaAndAccuracy m accuracy).mantissa = m := by
  rcases accuracy with _ | (_ | _ | _) <;> rfl

lemma log2_eq {m k : ℕ} (hl : 2 ^ k ≤ m) (hh : m < 2 ^ (k + 1)) : m.log2 = k :=
  (Nat.log2_eq_iff ((Nat.two_pow_pos k).trans_le hl).ne').2 ⟨hl, hh⟩

lemma shiftToTargetExponent_eq {m k : ℕ} {e : ℤ} (accuracy : Accuracy) (hl : 2 ^ (52 + k) ≤ m)
    (hh : m < 2 ^ (52 + k + 1)) (he : -1074 ≤ e + k) :
    shiftToTargetExponent .binary64 m e accuracy =
      (ExtendedMantissa.ofMantissaAndAccuracy m accuracy >>> k, e + k) := by
  have hshift : (Format.binary64.targetExponent (totalExponent m e) - e).toNat = k := by
    rw [targetExponent_eq, totalExponent, log2_eq hl hh]
    omega
  rw [shiftToTargetExponent, shiftToExponent, hshift]

lemma roundWithAccuracy_eq (s : Sign) {m k : ℕ} {e : ℤ} (accuracy : Accuracy)
    (hl : 2 ^ (52 + k) ≤ m) (hh : m < 2 ^ (52 + k + 1)) (he : -1074 ≤ e + k) :
    ∃ m' e' hm, roundWithAccuracy .binary64 s m e accuracy = .finite s m' e' hm ∧
      2 ^ 52 ≤ m' ∧ m' < 2 ^ 53 ∧ e + k ≤ e' ∧ e' ≤ e + k + 1 ∧
      (e' - (e + k)) * 2 ^ 52 + m' =
        (ExtendedMantissa.ofMantissaAndAccuracy m accuracy >>> k).roundedMantissa := by
  rw [roundWithAccuracy, shiftToTargetExponent_eq accuracy hl hh he]
  set em := ExtendedMantissa.ofMantissaAndAccuracy m accuracy >>> k
  have hem : em.mantissa = m / 2 ^ k := by
    rw [mantissa_shiftRight, mantissa_ofMantissaAndAccuracy]
  have hlow : 2 ^ 52 ≤ m / 2 ^ k :=
    (Nat.le_div_iff_mul_le (Nat.two_pow_pos k)).2 (by rwa [← Nat.pow_add])
  have hhigh : m / 2 ^ k < 2 ^ 53 :=
    (Nat.div_lt_iff_lt_mul (Nat.two_pow_pos k)).2 (by rwa [← Nat.pow_add, Nat.succ_add 52])
  obtain ⟨hr, hr'⟩ := roundedMantissa_bounds em
  -- rounding up can fill the mantissa, and then one more bit is shifted out
  rcases Nat.lt_or_ge em.roundedMantissa (2 ^ 53) with hsmall | hfull
  · have hagain := shiftToTargetExponent_eq (k := 0) .exact (by omega) hsmall (by simpa using he)
    have hpos : 0 < em.roundedMantissa := by omega
    simp only [hagain]
    refine ⟨em.roundedMantissa, e + k, hpos, ?_, by omega, hsmall, le_rfl, by omega, by omega⟩
    simp [mantissa_shiftRight, mantissa_ofMantissaAndAccuracy, hpos.ne']
  · have heq : em.roundedMantissa = 2 ^ 53 := by omega
    have hagain := shiftToTargetExponent_eq (m := em.roundedMantissa) (k := 1) (e := e + k) .exact
      (by omega) (by omega) (by omega)
    simp only [hagain]
    refine ⟨2 ^ 52, e + k + 1, by decide, ?_, le_rfl, by decide, by omega, le_rfl, by omega⟩
    simp [mantissa_shiftRight, mantissa_ofMantissaAndAccuracy, heq]

lemma normal_roundWithAccuracy (s : Sign) {m k : ℕ} {e : ℤ} (accuracy : Accuracy)
    (hl : 2 ^ (52 + k) ≤ m) (hh : m < 2 ^ (52 + k + 1)) (he : -1074 ≤ e + k) :
    Normal (e + k) (e + k + 1) (roundWithAccuracy .binary64 s m e accuracy) := by
  obtain ⟨m', e', hm, heq, hlow, hhigh, hel, heh, _⟩ := roundWithAccuracy_eq s accuracy hl hh he
  exact ⟨s, m', e', hm, heq, hlow, hhigh, hel, heh⟩

/-! Packing. -/

lemma toNat_unpackSign (b : BitVec Format.binary64.numBits) :
    (unpackSign b).toNat = b.toNat / 2 ^ 63 % 2 := by
  simp [unpackSign, Nat.shiftRight_eq_div_pow]

lemma unpackSign_packComponents (s : Sign) (e : BitVec 11) (m : BitVec 52) :
    Sign.ofBitVec (unpackSign (packComponents .binary64 s e m)) = s := by
  have hsign : unpackSign (packComponents .binary64 s e m) = s.toBitVec := by
    have hs := s.toBitVec.isLt
    have he := e.isLt
    have hm := m.isLt
    rw [← BitVec.toNat_inj, toNat_unpackSign, toNat_packComponents]
    omega
  rw [hsign]
  cases s <;> rfl

lemma toNat_implicit_append (m : BitVec 52) : (1#1 ++ m).toNat = 2 ^ 52 + m.toNat := by
  rw [BitVec.toNat_append, ← Nat.shiftLeft_add_eq_or_of_lt m.isLt]
  rfl

lemma pack_finite (s : Sign) {m b : ℕ} (hm : 0 < m) (hlow : 2 ^ 52 ≤ m) (hhigh : m < 2 ^ 53)
    (hb : b < 2047) :
    UnpackedFloat.pack .binary64 (.finite s m ((b : ℤ) - 1075) hm) =
      packComponents .binary64 s (BitVec.ofNat 11 b) (BitVec.ofNat 52 m) := by
  have hexp : ((b : ℤ) - 1075 + (Format.binary64.exponentBias : ℕ) +
      (Format.binary64.mantissaBitsWithoutImplicit : ℕ)).toNat = b := by
    rw [show Format.binary64.exponentBias = 1023 from rfl]
    exact (congrArg Int.toNat (by ring)).trans (Int.toNat_natCast b)
  simp only [UnpackedFloat.pack, hexp, log2_eq hlow hhigh]
  rw [if_neg (by omega), if_pos (by decide)]

lemma unpack_packComponents (s : Sign) {b : ℕ} (m : BitVec 52) (hpos : 0 < b) (hlt : b < 2047) :
    UnpackedFloat.unpack .binary64 (packComponents .binary64 s (BitVec.ofNat 11 b) m) =
      .finite s (2 ^ 52 + m.toNat) ((b : ℤ) - 1075) (by omega) := by
  have htoNat : (BitVec.ofNat 11 b).toNat = b := by
    rw [BitVec.toNat_ofNat]
    omega
  have hzero : BitVec.ofNat 11 b ≠ 0#_ := fun h => hpos.ne' (htoNat ▸ congrArg BitVec.toNat h)
  have hones : BitVec.ofNat 11 b ≠ -1#_ := fun h => hlt.ne (htoNat ▸ congrArg BitVec.toNat h)
  rw [UnpackedFloat.unpack]
  simp only [unpackExponent_packComponents, unpackMantissa_packComponents,
    unpackSign_packComponents, if_neg hzero, if_neg hones, htoNat, toNat_implicit_append]
  rfl

lemma unpack_pack (h : Normal low high x) (hl : -1074 ≤ low) (hh : high ≤ 971) :
    (Float.Model.pack x).unpack = x := by
  obtain ⟨s, m, e, hm, rfl, hlow, hhigh, hel, heh⟩ := h
  obtain ⟨b, rfl⟩ : ∃ b : ℕ, e = (b : ℤ) - 1075 := ⟨(e + 1075).toNat, by omega⟩
  have hfraction : 2 ^ 52 + (BitVec.ofNat 52 m).toNat = m := by
    rw [BitVec.toNat_ofNat]
    omega
  have hunpack := unpack_packComponents s (b := b) (BitVec.ofNat 52 m) (by omega) (by omega)
  rw [← pack_finite s hm hlow hhigh (by omega)] at hunpack
  simp only [hfraction] at hunpack
  exact hunpack

lemma normal_unpack_pack (h : Normal low high x) (hl : -1074 ≤ low) (hh : high ≤ 971) :
    Normal low high (Float.Model.pack x).unpack := by
  rwa [unpack_pack h hl hh]

/-! Integers. -/

lemma normal_mul (hx : Normal low high x) (hy : Normal low' high' y) (hl : -1126 ≤ low + low') :
    Normal (low + low' + 52) (high + high' + 54) (UnpackedFloat.mul .binary64 x y) := by
  obtain ⟨s, m, e, hm, rfl, hlow, hhigh, hel, heh⟩ := hx
  obtain ⟨s', m', e', hm', rfl, hlow', hhigh', hel', heh'⟩ := hy
  have hprod : 2 ^ (52 + 52) ≤ m * m' := by
    rw [Nat.pow_add]
    exact Nat.mul_le_mul hlow hlow'
  have hprod' : m * m' < 2 ^ (53 + 53) := by
    rw [Nat.pow_add]
    exact Nat.mul_lt_mul'' hhigh hhigh'
  rw [UnpackedFloat.mul]
  rcases Nat.lt_or_ge (m * m') (2 ^ (52 + 52 + 1)) with h | h
  · exact (normal_roundWithAccuracy (k := 52) _ _ hprod h (by omega)).mono (by omega) (by omega)
  · exact (normal_roundWithAccuracy (k := 53) _ _ h hprod' (by omega)).mono (by omega) (by omega)

lemma shifted_bounds {n j k : ℕ} (hpos : 0 < n) (hk : k = n.log2 + j) :
    2 ^ k ≤ n * 2 ^ j ∧ n * 2 ^ j < 2 ^ (k + 1) := by
  constructor
  · rw [hk, Nat.pow_add]
    exact Nat.mul_le_mul_right _ (Nat.log2_self_le hpos.ne')
  · rw [hk, Nat.add_right_comm, Nat.pow_add]
    exact Nat.mul_lt_mul_of_pos_right Nat.lt_log2_self (Nat.two_pow_pos _)

lemma ofNat_eq_round {n : ℕ} (hpos : 0 < n) (hlt : n < 2 ^ 53) :
    UnpackedFloat.ofNat .binary64 n = roundWithAccuracy .binary64 .positive
      (n * 2 ^ (52 - n.log2)) ((n.log2 : ℤ) - 52) .exact := by
  have hlog : n.log2 < 53 := (Nat.log2_lt hpos.ne').2 hlt
  have htarget : Format.binary64.targetExponent (totalExponent n 0) = (n.log2 : ℤ) - 52 := by
    rw [targetExponent_eq, totalExponent]
    omega
  rw [UnpackedFloat.ofNat, UnpackedFloat.ofInt, UnpackedFloat.normalize,
    Int.compare_eq_gt.2 (Int.natCast_pos.2 hpos)]
  simp only [Int.toNat_natCast, UnpackedFloat.round, decreaseExponent, htarget]
  rw [show (0 - ((n.log2 : ℤ) - 52)).toNat = 52 - n.log2 by omega, Nat.shiftLeft_eq]
  congr 1
  omega

lemma normal_ofNat_small {n : ℕ} (hpos : 0 < n) (hlt : n < 2 ^ 53) :
    Normal (-52) 1 (UnpackedFloat.ofNat .binary64 n) := by
  have hlog : n.log2 < 53 := (Nat.log2_lt hpos.ne').2 hlt
  obtain ⟨hlow, hhigh⟩ := shifted_bounds (j := 52 - n.log2) (k := 52 + 0) hpos (by omega)
  rw [ofNat_eq_round hpos hlt]
  exact (normal_roundWithAccuracy _ _ hlow hhigh (by omega)).mono (by omega) (by omega)

lemma ofScientific_eq_round {n : ℕ} (hpos : 0 < n) :
    UnpackedFloat.ofScientific .binary64 n 0 =
      roundWithAccuracy .binary64 .positive (n * 2 ^ 53) (-53) .exact := by
  have hlimit : (2 ^ Format.binary64.exponentBits : ℤ) = 2048 := rfl
  have hmin : ¬ (0 : ℤ) < -(2 ^ Format.binary64.exponentBits + n.log2) := by omega
  have hround : UnpackedFloat.ofScientific .binary64 n 0 =
      roundWithAccuracy .binary64 .positive (n <<< 53 * 1) (-53 + 0) .exact := by
    rw [UnpackedFloat.ofScientific, dif_neg hpos.ne', if_neg (by decide), if_neg hmin,
      if_pos le_rfl]
    rfl
  rw [hround, Nat.mul_one, Nat.shiftLeft_eq, Int.add_zero]

lemma normal_ofScientific {n : ℕ} (hlow : 2 ^ 53 ≤ n) (hhigh : n < 2 ^ 64) :
    Normal 1 12 (UnpackedFloat.ofScientific .binary64 n 0) := by
  have hpos : 0 < n := by omega
  have hlog : 53 ≤ n.log2 := (Nat.le_log2 hpos.ne').2 hlow
  have hlog' : n.log2 < 64 := (Nat.log2_lt hpos.ne').2 hhigh
  obtain ⟨hl, hh⟩ := shifted_bounds (j := 53) (k := 52 + (n.log2 + 1)) hpos (by omega)
  rw [ofScientific_eq_round hpos]
  exact (normal_roundWithAccuracy _ _ hl hh (by omega)).mono (by omega) (by omega)

lemma normal_one : Normal (-52) (-52) (Float.ofBits 0x3FF0000000000000).toModel.unpack :=
  ⟨.positive, 2 ^ 52, -52, by decide, rfl, le_rfl, by decide, le_rfl, le_rfl⟩

lemma unpack_ofNat_small {n : ℕ} (hpos : 0 < n) (hlt : n < 2 ^ 53) :
    (Float.ofNat n).toModel.unpack = UnpackedFloat.mul .binary64 (UnpackedFloat.ofNat .binary64 n)
      (Float.ofBits 0x3FF0000000000000).toModel.unpack := by
  have hprod : Float.ofNat n = n.toUInt64.toFloat * Float.ofBits 0x3FF0000000000000 :=
    dif_pos ⟨hlt, by decide⟩
  have hn : n.toUInt64.toNat = n := UInt64.toNat_ofNat_of_lt' (hlt.trans (by decide))
  have hnormal := normal_ofNat_small hpos hlt
  have hfactor : n.toUInt64.toFloat.toModel.unpack = UnpackedFloat.ofNat .binary64 n := by
    rw [← hn] at hnormal
    exact (unpack_pack hnormal (by decide) (by decide)).trans (by rw [hn])
  rw [hprod, ← hfactor]
  exact unpack_pack (normal_mul (hfactor ▸ hnormal) normal_one (by decide)) (by decide) (by decide)

lemma unpack_ofNat_large {n : ℕ} (hlow : 2 ^ 53 ≤ n) (hhigh : n < 2 ^ 64) :
    (Float.ofNat n).toModel.unpack = UnpackedFloat.ofScientific .binary64 n 0 := by
  have hmodel : Float.ofNat n = .ofModel (Float.Model.ofScientific n 0) :=
    dif_neg fun h => hlow.not_gt h.1
  rw [hmodel]
  exact unpack_pack (normal_ofScientific hlow hhigh) (by decide) (by decide)

lemma normal_ofNat {n : ℕ} (hpos : 0 < n) (hlt : n < 2 ^ 64) :
    Normal (-52) 12 (Float.ofNat n).toModel.unpack := by
  rcases Nat.lt_or_ge n (2 ^ 53) with hsmall | hlarge
  · rw [unpack_ofNat_small hpos hsmall]
    exact (normal_mul (normal_ofNat_small hpos hsmall) normal_one (by decide)).mono (by decide)
      (by decide)
  · rw [unpack_ofNat_large hlarge hlt]
    exact (normal_ofScientific hlarge hlt).mono (by decide) le_rfl

lemma normal_ofInt {n : ℤ} (hne : n ≠ 0) (hlt : n.natAbs < 2 ^ 64) :
    Normal (-52) 12 (Float.ofInt n).toModel.unpack := by
  cases n with
  | ofNat n => exact normal_ofNat (by simpa [Nat.pos_iff_ne_zero] using hne) hlt
  | negSucc n =>
    exact normal_unpack_pack (normal_ofNat n.succ_pos hlt).neg (by decide) (by decide)

/-! Quotients. -/

lemma normal_div (hx : Normal low high x) (hy : Normal low' high' y) (hl : -1021 ≤ low - high') :
    Normal (low - high' - 53) (high - low' - 51) (UnpackedFloat.div .binary64 x y) := by
  obtain ⟨s, m, e, hm, rfl, hlow, hhigh, hel, heh⟩ := hx
  obtain ⟨s', m', e', hm', rfl, hlow', hhigh', hel', heh'⟩ := hy
  have htarget : min (e - e') (Format.binary64.targetExponent
      (totalExponent m e - totalExponent m' e')) = e - e' - 53 := by
    rw [targetExponent_eq, totalExponent, totalExponent, log2_eq hlow hhigh, log2_eq hlow' hhigh']
    omega
  have hshift : (e - e' - (e - e' - 53)).toNat = 53 := by omega
  have hdiv : UnpackedFloat.div .binary64 (.finite s m e hm) (.finite s' m' e' hm') =
      roundWithAccuracy .binary64 (s / s') (m * 2 ^ 53 / m') (e - e' - 53)
        (accuracyOfFraction (m * 2 ^ 53 % m') m') := by
    simp only [UnpackedFloat.div, divCore, htarget, hshift, Nat.shiftLeft_eq]
  have hquot : 2 ^ 52 ≤ m * 2 ^ 53 / m' := by
    rw [Nat.le_div_iff_mul_le hm']
    calc 2 ^ 52 * m' ≤ 2 ^ 52 * 2 ^ 53 := Nat.mul_le_mul_left _ hhigh'.le
      _ ≤ m * 2 ^ 53 := Nat.mul_le_mul_right _ hlow
  have hquot' : m * 2 ^ 53 / m' < 2 ^ 54 := by
    rw [Nat.div_lt_iff_lt_mul hm']
    calc m * 2 ^ 53 < 2 ^ 53 * 2 ^ 53 := Nat.mul_lt_mul_of_pos_right hhigh (Nat.two_pow_pos _)
      _ = 2 ^ 54 * 2 ^ 52 := by decide
      _ ≤ 2 ^ 54 * m' := Nat.mul_le_mul_left _ hlow'
  rw [hdiv]
  rcases Nat.lt_or_ge (m * 2 ^ 53 / m') (2 ^ 53) with h | h
  · exact (normal_roundWithAccuracy (k := 0) _ _ hquot h (by omega)).mono (by omega) (by omega)
  · exact (normal_roundWithAccuracy (k := 1) _ _ h hquot' (by omega)).mono (by omega) (by omega)

lemma unpack_ofInt_zero : (Float.ofInt 0).toModel.unpack = .zero .positive := by
  rfl

lemma isFinite_pack_zero (s : Sign) : (Float.Model.pack (.zero s)).unpack.isFinite = true := by
  cases s <;> rfl

lemma natAbs_toInt_lt (n : Int64) : n.toInt.natAbs < 2 ^ 64 := by
  have hl := n.le_toInt
  have hh := n.toInt_lt
  omega

theorem isFinite_div_ofInt (a : Int64) {b : Int64} (hb : b.toInt ≠ 0) :
    (Float.ofInt a.toInt / Float.ofInt b.toInt).isFinite = true := by
  have hdivisor := normal_ofInt hb (natAbs_toInt_lt b)
  change (Float.Model.pack (UnpackedFloat.div .binary64 (Float.ofInt a.toInt).toModel.unpack
    (Float.ofInt b.toInt).toModel.unpack)).unpack.isFinite = true
  by_cases ha : a.toInt = 0
  · obtain ⟨s, m, e, hm, he, _⟩ := hdivisor
    rw [ha, unpack_ofInt_zero, he, UnpackedFloat.div]
    exact isFinite_pack_zero _
  · have hdividend := normal_ofInt ha (natAbs_toInt_lt a)
    exact (normal_unpack_pack (normal_div hdividend hdivisor (by decide)) (by decide)
      (by decide)).isFinite

/-! Negation. -/

lemma toNat_pack_neg (x : UnpackedFloat) :
    (UnpackedFloat.pack .binary64 x.neg).toNat % 2 ^ 63 =
      (UnpackedFloat.pack .binary64 x).toNat % 2 ^ 63 := by
  have hsign (s t : Sign) (e : BitVec 11) (m : BitVec 52) :
      (packComponents .binary64 s e m).toNat % 2 ^ 63 =
        (packComponents .binary64 t e m).toNat % 2 ^ 63 := by
    rw [toNat_packComponents, toNat_packComponents]
    omega
  cases x with
  | notANumber => rfl
  | infinity s => exact hsign _ _ _ _
  | zero s => exact hsign _ _ _ _
  | finite s m e hm =>
    simp only [UnpackedFloat.neg, UnpackedFloat.pack]
    split
    · exact hsign _ _ _ _
    · split
      · exact hsign _ _ _ _
      · exact hsign _ _ _ _

theorem isFinite_neg {x : Float} (h : x.isFinite = true) : (-x).isFinite = true := by
  have hx : x.toModel.unpack.isFinite = true := h
  have hneg : (UnpackedFloat.unpack .binary64
      (UnpackedFloat.pack .binary64 x.toModel.unpack.neg)).isFinite = true := by
    rw [isFinite_unpack, toNat_pack_neg, Float.Model.unpack,
      pack_unpack_of_valid x.toModel.valid, ← isFinite_unpack]
    exact hx
  exact hneg

end Lisplet.Decimal

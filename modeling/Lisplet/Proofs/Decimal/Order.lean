import Lisplet.Proofs.Decimal.Finite

/-! The order of finite reals. Each has a place among the integers, with its exponent in front of
its mantissa. Integers that become reals keep their order, but different ones can come to one place. -/

namespace Lisplet.Decimal

open Float.Model Float.Model.UnpackedFloat

def Canonical : UnpackedFloat → Prop
  | .finite _ m e _ => m < 2 ^ 53 ∧ -1074 ≤ e ∧ (2 ^ 52 ≤ m ∨ e = -1074)
  | .zero _ => True
  | _ => False

def rank : UnpackedFloat → ℤ
  | .finite s m e _ => s.apply ((e + 1074) * 2 ^ 52 + m)
  | _ => 0

/-- The place of a finite real in the order of all of them. -/
def place (x : Float) : ℤ :=
  rank x.toModel.unpack

variable {u v : UnpackedFloat} {m n k : ℕ} {d e : ℤ} {x y : Float}

lemma canonical_unpack {b : BitVec Format.binary64.numBits}
    (h : (UnpackedFloat.unpack .binary64 b).isFinite = true) :
    Canonical (UnpackedFloat.unpack .binary64 b) := by
  have hm := (unpackMantissa b).isLt
  rw [UnpackedFloat.unpack] at h ⊢
  dsimp only at h ⊢
  split at h
  · split at h <;> cases h
  · next hinfinite =>
    rw [if_neg hinfinite]
    split
    · next hzero =>
      split
      · trivial
      · rw [hzero]
        exact ⟨hm.trans (by decide), by decide, .inr rfl⟩
    · next hzero =>
      have hpos : 0 < (unpackExponent b).toNat :=
        Nat.pos_of_ne_zero fun h => hzero (BitVec.eq_of_toNat_eq h)
      have hbias : (Format.binary64.exponentBias : ℤ) = 1023 := rfl
      have hwidth : (Format.binary64.mantissaBitsWithoutImplicit : ℤ) = 52 := rfl
      have happ := toNat_implicit_append (unpackMantissa b)
      refine ⟨by omega, by omega, .inl (by omega)⟩

lemma compare_magnitude (hm : m < 2 ^ 53 ∧ -1074 ≤ d ∧ (2 ^ 52 ≤ m ∨ d = -1074))
    (hn : n < 2 ^ 53 ∧ -1074 ≤ e ∧ (2 ^ 52 ≤ n ∨ e = -1074)) :
    (compare d e).then (compare m n) =
      compare ((d + 1074) * 2 ^ 52 + m) ((e + 1074) * 2 ^ 52 + n) := by
  rcases lt_trichotomy d e with h | rfl | h
  · rw [Int.compare_eq_lt.2 h, Int.compare_eq_lt.2 (by omega)]
    rfl
  · rw [Int.compare_eq_eq.2 rfl]
    rcases lt_trichotomy m n with h | rfl | h
    · rw [Nat.compare_eq_lt.2 h, Int.compare_eq_lt.2 (by omega)]
      rfl
    · rw [Nat.compare_eq_eq.2 rfl, Int.compare_eq_eq.2 rfl]
      rfl
    · rw [Nat.compare_eq_gt.2 h, Int.compare_eq_gt.2 (by omega)]
      rfl
  · rw [Int.compare_eq_gt.2 h, Int.compare_eq_gt.2 (by omega)]
    rfl

lemma compare_neg (a b : ℤ) : compare (-a) (-b) = compare b a := by
  simp [compare, compareOfLessAndEq, eq_comm]

lemma rank_pos {hm : 0 < m} (h : Canonical (.finite .positive m e hm)) :
    0 < rank (.finite .positive m e hm) := by
  obtain ⟨_, he, _⟩ := h
  change 0 < (e + 1074) * 2 ^ 52 + (m : ℤ)
  omega

lemma rank_neg (u : UnpackedFloat) : rank u.neg = -rank u := by
  cases u with
  | finite s m e hm =>
    cases s
    · exact (neg_neg _).symm
    · rfl
  | _ => rfl

lemma rank_negative {hm : 0 < m} (h : Canonical (.finite .negative m e hm)) :
    rank (.finite .negative m e hm) < 0 := by
  have hpos : 0 < rank (.finite .positive m e hm) := rank_pos h
  exact neg_neg_of_pos hpos

lemma compare_eq_rank (hu : Canonical u) (hv : Canonical v) :
    u.compare v = some (compare (rank u) (rank v)) := by
  cases u with
  | infinity _ => cases hu
  | notANumber => cases hu
  | zero s => cases v with
    | infinity _ => cases hv
    | notANumber => cases hv
    | zero t => rfl
    | finite t n e hn => cases t with
      | negative => exact congrArg some (Int.compare_eq_gt.2 (rank_negative hv)).symm
      | positive => exact congrArg some (Int.compare_eq_lt.2 (rank_pos hv)).symm
  | finite s m d hm => cases v with
    | infinity _ => cases hv
    | notANumber => cases hv
    | zero t => cases s with
      | negative => exact congrArg some (Int.compare_eq_lt.2 (rank_negative hu)).symm
      | positive => exact congrArg some (Int.compare_eq_gt.2 (rank_pos hu)).symm
    | finite t n e hn => cases s with
      | negative => cases t with
        | negative =>
          refine congrArg some ?_
          rw [compare_magnitude hu hv, Int.compare_swap]
          exact (compare_neg _ _).symm
        | positive =>
          exact congrArg some (Int.compare_eq_lt.2 ((rank_negative hu).trans (rank_pos hv))).symm
      | positive => cases t with
        | negative =>
          exact congrArg some (Int.compare_eq_gt.2 ((rank_negative hv).trans (rank_pos hu))).symm
        | positive => exact congrArg some (compare_magnitude hu hv)

lemma compare_unpack (hx : x.isFinite = true) (hy : y.isFinite = true) :
    x.toModel.unpack.compare y.toModel.unpack = some (compare (place x) (place y)) :=
  compare_eq_rank (canonical_unpack hx) (canonical_unpack hy)

theorem lt_iff_place_lt (hx : x.isFinite = true) (hy : y.isFinite = true) :
    x < y ↔ place x < place y := by
  have hlt : x < y ↔ (x.toModel.unpack.compare y.toModel.unpack == some .lt) = true :=
    decide_eq_true_iff
  rw [hlt, compare_unpack hx hy, beq_iff_eq, Option.some_inj, Int.compare_eq_lt]

theorem beq_iff_place_eq (hx : x.isFinite = true) (hy : y.isFinite = true) :
    (x == y) = true ↔ place x = place y := by
  have hbeq : (x == y) = (x.toModel.unpack.compare y.toModel.unpack == some .eq) := rfl
  rw [hbeq, compare_unpack hx hy, beq_iff_eq, Option.some_inj, Int.compare_eq_eq]

/-! Rounding keeps the order. -/

def weight (em : ExtendedMantissa) : ℕ :=
  4 * em.mantissa + 2 * em.roundBit.toNat + em.stickyBit.toNat

variable {em em' : ExtendedMantissa}

lemma weight_shiftRightOne (em : ExtendedMantissa) :
    weight em.shiftRightOne = 2 * (weight em / 4) + (weight em % 4 + 3) / 4 := by
  obtain ⟨m, r, s⟩ := em
  have hodd : (m % 2 != 0).toNat = m % 2 := by
    rcases Nat.mod_two_eq_zero_or_one m with h | h <;> rw [h] <;> rfl
  have hweight : weight (ExtendedMantissa.shiftRightOne ⟨m, r, s⟩) = 2 * m + (r || s).toNat := by
    simp only [weight, ExtendedMantissa.shiftRightOne, hodd]
    omega
  rw [hweight, weight]
  cases r <;> cases s <;> simp only [Bool.or_false, Bool.or_true, Bool.toNat_false,
    Bool.toNat_true] <;> omega

lemma weight_shiftRight_mono (h : weight em ≤ weight em') (k : ℕ) :
    weight (em >>> k) ≤ weight (em' >>> k) := by
  induction k with
  | zero => exact h
  | succ k ih =>
    change weight (em >>> k).shiftRightOne ≤ weight (em' >>> k).shiftRightOne
    rw [weight_shiftRightOne, weight_shiftRightOne]
    omega

lemma roundedMantissa_eq (em : ExtendedMantissa) : em.roundedMantissa = em.mantissa +
    (2 * em.roundBit.toNat + em.stickyBit.toNat + em.mantissa % 2 + 1) / 4 := by
  obtain ⟨m, r, s⟩ := em
  cases r <;> cases s <;> simp only [ExtendedMantissa.roundedMantissa, ExtendedMantissa.accuracy,
    Accuracy.roundToNearestEven, Bool.toNat_false, Bool.toNat_true] <;> omega

lemma roundedMantissa_mono (h : weight em ≤ weight em') :
    em.roundedMantissa ≤ em'.roundedMantissa := by
  have hr := em.roundBit.toNat_le
  have hs := em.stickyBit.toNat_le
  have hr' := em'.roundBit.toNat_le
  have hs' := em'.stickyBit.toNat_le
  rw [weight, weight] at h
  rw [roundedMantissa_eq, roundedMantissa_eq]
  omega

def nearest (m k : ℕ) : ℕ :=
  (ExtendedMantissa.ofMantissaAndAccuracy m .exact >>> k).roundedMantissa

lemma nearest_mono (h : m ≤ n) (k : ℕ) : nearest m k ≤ nearest n k := by
  refine roundedMantissa_mono (weight_shiftRight_mono ?_ k)
  change 4 * m + 2 * 0 + 0 ≤ 4 * n + 2 * 0 + 0
  omega

lemma nearest_mul_two_pow (m k : ℕ) : nearest (m * 2 ^ k) k = m := by
  have hshift (m : ℕ) : ExtendedMantissa.ofMantissaAndAccuracy (m * 2 ^ k) .exact >>> k =
      ⟨m, false, false⟩ := by
    induction k generalizing m with
    | zero =>
      rw [Nat.pow_zero, Nat.mul_one]
      rfl
    | succ k ih =>
      change
        (ExtendedMantissa.ofMantissaAndAccuracy (m * 2 ^ (k + 1)) .exact >>> k).shiftRightOne = _
      rw [Nat.pow_succ', ← Nat.mul_assoc, ih]
      simp [ExtendedMantissa.shiftRightOne]
  rw [nearest, hshift]
  rfl

lemma nearest_bounds (hl : 2 ^ (52 + k) ≤ m) (hh : m < 2 ^ (52 + k + 1)) :
    2 ^ 52 ≤ nearest m k ∧ nearest m k ≤ 2 ^ 53 := by
  constructor
  · have hle := nearest_mono hl k
    rwa [Nat.pow_add, nearest_mul_two_pow] at hle
  · rw [Nat.add_right_comm, Nat.pow_add] at hh
    have hle := nearest_mono hh.le k
    rwa [nearest_mul_two_pow] at hle

lemma rank_round (s : Sign) (hl : 2 ^ (52 + k) ≤ m) (hh : m < 2 ^ (52 + k + 1))
    (he : -1074 ≤ e + k) :
    rank (roundWithAccuracy .binary64 s m e .exact) =
      s.apply ((e + k + 1074) * 2 ^ 52 + nearest m k) := by
  obtain ⟨m', e', hm, heq, _, _, _, _, hround⟩ := roundWithAccuracy_eq s .exact hl hh he
  rw [heq, rank]
  congr 1
  rw [nearest, ← hround]
  ring

/-! Integers as reals. -/

lemma mul_one_eq_round {hm : 0 < m} :
    rank (UnpackedFloat.mul .binary64 (.finite .positive m e hm)
      (Float.ofBits 0x3FF0000000000000).toModel.unpack) =
        rank (roundWithAccuracy .binary64 .positive (m * 2 ^ 52) (e - 52) .exact) := by
  rfl

lemma ofNat_small_eq (hpos : 0 < n) (hlt : n < 2 ^ 53) :
    ∃ hm, UnpackedFloat.ofNat .binary64 n =
      .finite .positive (n * 2 ^ (52 - n.log2)) ((n.log2 : ℤ) - 52) hm := by
  have hlog : n.log2 < 53 := (Nat.log2_lt hpos.ne').2 hlt
  obtain ⟨hl, hh⟩ := shifted_bounds (j := 52 - n.log2) (k := 52 + 0) hpos (by omega)
  obtain ⟨m, e, hm, heq, hlow, hhigh, hel, heh, hround⟩ :=
    roundWithAccuracy_eq .positive (e := (n.log2 : ℤ) - 52) .exact hl hh (by omega)
  have hexact : (ExtendedMantissa.ofMantissaAndAccuracy (n * 2 ^ (52 - n.log2)) .exact >>>
      0).roundedMantissa = n * 2 ^ (52 - n.log2) := rfl
  rw [hexact] at hround
  obtain rfl : m = n * 2 ^ (52 - n.log2) := by omega
  obtain rfl : e = (n.log2 : ℤ) - 52 := by omega
  exact ⟨hm, (ofNat_eq_round hpos hlt).trans heq⟩

lemma place_ofNat (hpos : 0 < n) (hlt : n < 2 ^ 64) :
    place (Float.ofNat n) =
      (n.log2 + 1022) * 2 ^ 52 + (nearest (n * 2 ^ 53) (n.log2 + 1) : ℕ) := by
  rcases Nat.lt_or_ge n (2 ^ 53) with hsmall | hlarge
  · have hlog : n.log2 < 53 := (Nat.log2_lt hpos.ne').2 hsmall
    obtain ⟨hm, heq⟩ := ofNat_small_eq hpos hsmall
    have hscale : n * 2 ^ 53 = n * 2 ^ (52 - n.log2) * 2 ^ (n.log2 + 1) := by
      rw [Nat.mul_assoc, ← Nat.pow_add]
      congr 2
      omega
    have hshift : n * 2 ^ (52 - n.log2) * 2 ^ 52 = n * 2 ^ (52 - n.log2 + 52) := by
      rw [Nat.mul_assoc, ← Nat.pow_add]
    obtain ⟨hl, hh⟩ := shifted_bounds (j := 52 - n.log2 + 52) (k := 52 + 52) hpos (by omega)
    rw [place, unpack_ofNat_small hpos hsmall, heq, mul_one_eq_round, hshift,
      rank_round _ hl hh (by omega), ← hshift, nearest_mul_two_pow, hscale, nearest_mul_two_pow]
    change _ * _ + _ = _
    push_cast
    ring
  · obtain ⟨hl, hh⟩ := shifted_bounds (j := 53) (k := 52 + (n.log2 + 1)) hpos (by omega)
    rw [place, unpack_ofNat_large hlarge hlt, ofScientific_eq_round hpos,
      rank_round _ hl hh (by omega)]
    change _ * _ + _ = _
    push_cast
    ring

lemma nearest_scaled_bounds (hpos : 0 < n) :
    2 ^ 52 ≤ nearest (n * 2 ^ 53) (n.log2 + 1) ∧ nearest (n * 2 ^ 53) (n.log2 + 1) ≤ 2 ^ 53 := by
  obtain ⟨hl, hh⟩ := shifted_bounds (j := 53) (k := 52 + (n.log2 + 1)) hpos (by omega)
  exact nearest_bounds hl hh

lemma place_ofNat_mono (h : m ≤ n) (hlt : n < 2 ^ 64) :
    place (Float.ofNat m) ≤ place (Float.ofNat n) := by
  rcases Nat.eq_zero_or_pos n with rfl | hn
  · obtain rfl := Nat.le_zero.1 h
    exact le_rfl
  rcases Nat.eq_zero_or_pos m with rfl | hm
  · have hzero : place (Float.ofNat 0) = 0 := rfl
    rw [hzero, place_ofNat hn hlt]
    positivity
  have hlog : m.log2 ≤ n.log2 := (Nat.le_log2 hn.ne').2 ((Nat.log2_self_le hm.ne').trans h)
  rw [place_ofNat hm (h.trans_lt hlt), place_ofNat hn hlt]
  have hle := (nearest_scaled_bounds hm).2
  have hge := (nearest_scaled_bounds hn).1
  -- the exponent decides, and between equal exponents the rounded mantissa
  rcases hlog.lt_or_eq with hlog | hlog
  · omega
  · have hle := nearest_mono (Nat.mul_le_mul_right (2 ^ 53) h) (n.log2 + 1)
    rw [hlog]
    omega

lemma place_neg_ofNat (hlt : n + 1 < 2 ^ 64) :
    place (Float.ofInt (.negSucc n)) = -place (Float.ofNat (n + 1)) := by
  have hnormal := normal_ofNat n.succ_pos hlt
  have hneg : (Float.ofInt (.negSucc n)).toModel.unpack =
      (Float.ofNat (n + 1)).toModel.unpack.neg :=
    unpack_pack hnormal.neg (by decide) (by decide)
  rw [place, hneg, rank_neg]
  rfl

theorem place_ofInt_mono {a b : ℤ} (h : a ≤ b) (ha : a.natAbs < 2 ^ 64) (hb : b.natAbs < 2 ^ 64) :
    place (Float.ofInt a) ≤ place (Float.ofInt b) := by
  have hzero : place (Float.ofNat 0) = 0 := rfl
  cases b with
  | ofNat n => cases a with
    | ofNat m => exact place_ofNat_mono (Int.ofNat_le.1 h) hb
    | negSucc m =>
      have hm := place_ofNat_mono (m + 1).zero_le ha
      have hn : place (Float.ofNat 0) ≤ place (Float.ofInt (.ofNat n)) :=
        place_ofNat_mono n.zero_le hb
      rw [place_neg_ofNat ha]
      omega
  | negSucc n => cases a with
    | ofNat m =>
      have hlt := (Int.negSucc_lt_zero n).trans_le (Int.natCast_nonneg m)
      exact absurd h (Int.not_le.2 hlt)
    | negSucc m =>
      rw [place_neg_ofNat ha, place_neg_ofNat hb, Int.neg_le_neg_iff]
      exact place_ofNat_mono (by omega) ha

end Lisplet.Decimal

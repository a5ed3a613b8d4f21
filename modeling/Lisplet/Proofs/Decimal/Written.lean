import Lisplet.Proofs.Decimal.Bits
import Lisplet.Proofs.Decimal.Shortest
import Lisplet.Proofs.Decimal.Spelling

/-! What is written for a number is a spelling of that number, and of no number of the other
kind. -/

namespace Lisplet.Decimal

/-! Digits. -/

lemma isDigits_toDigits (n : ℕ) : IsDigits (Nat.toDigits 10 n) :=
  fun _ h => Nat.isDigit_of_mem_toDigits (by decide) (by decide) h

lemma isDigits_zeros (n : ℕ) : IsDigits (zeros n) := by
  intro c h
  rw [List.eq_of_mem_replicate h]
  rfl

lemma digitsValue_toDigits (n : ℕ) : digitsValue (Nat.toDigits 10 n) = n :=
  Nat.ofDigitChars_ten_toDigits

lemma digitsValue_zeros_append (n : ℕ) (digits : List Char) :
    digitsValue (zeros n ++ digits) = digitsValue digits := by
  rw [digitsValue, Nat.ofDigitChars_append, zeros, Nat.ofDigitChars_replicate_zero, Nat.mul_zero,
    digitsValue]

lemma digitsValue_append_zeros (n : ℕ) (digits : List Char) :
    digitsValue (digits ++ zeros n) = digitsValue digits * tenTo n := by
  rw [digitsValue, Nat.ofDigitChars_append, zeros, Nat.ofDigitChars_replicate_zero, Nat.mul_comm,
    tenTo_eq, digitsValue]

/-! Integers. -/

theorem spells_integerText (n : Int) : SpellsInteger (integerText n) n := by
  cases n with
  | ofNat n =>
    have h := SpellsInteger.intro .absent Nat.toDigits_ne_nil (isDigits_toDigits n)
    rwa [digitsValue_toDigits] at h
  | negSucc n =>
    have h := SpellsInteger.intro .minus Nat.toDigits_ne_nil (isDigits_toDigits (n + 1))
    rwa [digitsValue_toDigits] at h

/-! Decimals. -/

variable {x y : Scientific} {pattern : ℕ}

lemma spellsScientific_parts {mantissa whole fraction exponent : List Char} {e : Int}
    (hm : Mantissa mantissa whole fraction) (hne : whole ++ fraction ≠ [])
    (he : Exponent exponent e) (hs : digitsValue (whole ++ fraction) = x.significand)
    (hx : e - fraction.length = x.exponent) : SpellsScientific (mantissa ++ exponent) x := by
  cases x
  cases hs
  cases hx
  exact .intro hm hne he

lemma spellsScientific_mantissa {mantissa whole fraction : List Char}
    (hm : Mantissa mantissa whole fraction) (hne : whole ++ fraction ≠ [])
    (hs : digitsValue (whole ++ fraction) = x.significand)
    (hx : -(fraction.length : Int) = x.exponent) : SpellsScientific mantissa x := by
  have h := spellsScientific_parts hm hne .absent hs (by rw [Int.zero_sub, hx])
  rwa [List.append_nil] at h

def Scientific.pointed (x : Scientific) : Scientific :=
  ⟨x.significand * tenTo (x.exponent.toNat + 1), -1⟩

lemma Scientific.RoundsTo.pointed (h : x.RoundsTo pattern) (he : 0 ≤ x.exponent) :
    x.pointed.RoundsTo pattern := by
  refine h.of_eq ?_
  have hden : (-x.exponent).toNat = 0 := by omega
  simp only [num, den, Scientific.pointed, hden, tenTo_add]
  simp only [tenTo_eq, Int.neg_neg, Int.reduceToNat]
  ring

lemma spells_plainText {digits : List Char} (hne : digits ≠ []) (hd : IsDigits digits)
    (hx : digitsValue digits = x.significand) :
    SpellsScientific (plainText digits (x.exponent + digits.length)) x ∨
      0 ≤ x.exponent ∧
        SpellsScientific (plainText digits (x.exponent + digits.length)) x.pointed := by
  have hlen := List.length_pos_iff.2 hne
  have hzero : IsDigits ['0'] := isDigits_zeros 1
  rw [plainText]
  split
  · next hpoint =>
    -- zeros fill the space between the point and the first digit
    have hfraction := isDigits_append.2 ⟨isDigits_zeros (-(x.exponent + digits.length)).toNat, hd⟩
    have hm := Mantissa.pointed hzero hfraction
    refine .inl (spellsScientific_mantissa hm (List.cons_ne_nil _ _) ?_ ?_)
    · rw [show ['0'] = zeros 1 from rfl, digitsValue_zeros_append, digitsValue_zeros_append, hx]
    · rw [List.length_append, zeros, List.length_replicate]
      omega
  split
  · next hpoint hle =>
    have hfill : (x.exponent + digits.length).toNat - digits.length = x.exponent.toNat := by omega
    have hwhole := isDigits_append.2 ⟨hd, isDigits_zeros x.exponent.toNat⟩
    rw [hfill]
    refine .inr ⟨by omega, spellsScientific_mantissa (.pointed hwhole hzero) (by simp) ?_ rfl⟩
    rw [List.append_assoc, show ['0'] = zeros 1 from rfl, zeros, zeros,
      List.replicate_append_replicate, ← zeros, digitsValue_append_zeros, hx, Scientific.pointed]
  · next hpoint hlt =>
    have hsplit := List.take_append_drop (x.exponent + digits.length).toNat digits
    have hparts := isDigits_append.1 (hsplit.symm ▸ hd)
    refine .inl (spellsScientific_mantissa (.pointed hparts.1 hparts.2) ?_ ?_ ?_)
    · rwa [hsplit]
    · rw [hsplit, hx]
    · rw [List.length_drop]
      omega

lemma exponent_integerText (e : Int) : Exponent ('e' :: integerText e) e :=
  .marked (.inl rfl) (spells_integerText e)

lemma spells_markedText {digits : List Char} (hne : digits ≠ []) (hd : IsDigits digits)
    (hx : digitsValue digits = x.significand) :
    SpellsScientific (markedText digits (x.exponent + digits.length - 1)) x := by
  have he := exponent_integerText (x.exponent + digits.length - 1)
  have hpos := List.length_pos_iff.2 hne
  rw [markedText]
  split
  · next hlen =>
    rw [List.append_nil, List.take_of_length_le hlen]
    refine spellsScientific_parts (.plain hd) ?_ he ?_ ?_
    · rwa [List.append_nil]
    · rw [List.append_nil, hx]
    · rw [List.length_nil]
      omega
  · next hlen =>
    have hsplit := List.take_append_drop 1 digits
    have hparts := isDigits_append.1 (hsplit.symm ▸ hd)
    refine spellsScientific_parts (.pointed hparts.1 hparts.2) ?_ he ?_ ?_
    · rwa [hsplit]
    · rw [hsplit, hx]
    · rw [List.length_drop]
      omega

lemma Style.spells_positive (style : Style) (h : x.RoundsTo pattern) :
    ∃ y : Scientific, SpellsScientific (style.positive x) y ∧ y.RoundsTo pattern := by
  have hne : Nat.toDigits 10 x.significand ≠ [] := Nat.toDigits_ne_nil
  have hd := isDigits_toDigits x.significand
  have hx := digitsValue_toDigits x.significand
  simp only [positive]
  split
  · rw [Int.sub_add_cancel]
    rcases spells_plainText hne hd hx with hs | ⟨he, hs⟩
    · exact ⟨x, hs, h⟩
    · exact ⟨x.pointed, hs, h.pointed he⟩
  · exact ⟨x, spells_markedText hne hd hx, h⟩

lemma Style.spells_magnitude (style : Style) (h : pattern < infinityPattern) :
    ∃ x, SpellsScientific (style.magnitude pattern) x ∧ x.pattern = pattern := by
  rw [magnitude, if_pos h]
  split
  · next h0 =>
    have hzero : IsDigits ['0'] := isDigits_zeros 1
    exact ⟨_, .intro (.pointed hzero hzero) (List.cons_ne_nil _ _) .absent, h0.symm⟩
  · next h0 =>
    have hp := Nat.pos_of_ne_zero h0
    obtain ⟨x, hs, hr⟩ := style.spells_positive (shortest_roundsTo hp)
    exact ⟨x, hs, hr.pattern_eq hp h⟩

/-! Reals. -/

theorem spells_realText {x : Float} (h : x.isFinite = true) : SpellsReal (realText x) x := by
  have hlt := isFinite_iff.1 h
  obtain ⟨y, hs, hy⟩ := realStyle.spells_magnitude hlt
  have hx := withSign_patternOf x
  have hspells {sign : List Char} (hn : Sign sign (isNegative x)) :
      SpellsReal (sign ++ realStyle.magnitude (patternOf x)) x := by
    have hreal := SpellsReal.intro hn hs
    rwa [hy, hx] at hreal
  rw [realText, Style.write, if_neg (by omega)]
  split
  · next hn =>
    have hminus : Sign ['-'] (isNegative x) := hn ▸ .minus
    exact hspells hminus
  · next hn =>
    have habsent : Sign [] (isNegative x) := Bool.eq_false_of_not_eq_true hn ▸ .absent
    exact hspells habsent

lemma mem_plainText (digits : List Char) (point : Int) : '.' ∈ plainText digits point := by
  rw [plainText]
  split <;> [skip; split] <;> simp

lemma mem_realText {x : Float} (h : x.isFinite = true) : '.' ∈ realText x ∨ 'e' ∈ realText x := by
  have hlt := isFinite_iff.1 h
  have hmagnitude : '.' ∈ realStyle.magnitude (patternOf x) ∨
      'e' ∈ realStyle.magnitude (patternOf x) := by
    rw [Style.magnitude, if_pos hlt]
    split
    · exact .inl (by simp)
    · simp only [Style.positive]
      split
      · exact .inl (mem_plainText _ _)
      · exact .inr (by simp [markedText])
  rw [realText, Style.write, if_neg (by omega)]
  split
  · exact hmagnitude.imp (List.mem_cons_of_mem _) (List.mem_cons_of_mem _)
  · exact hmagnitude

theorem not_spellsInteger_realText {x : Float} (h : x.isFinite = true) (n : Int) :
    ¬ SpellsInteger (realText x) n := by
  intro hn
  rcases mem_realText h with hc | hc
  · simpa [signs] using hn.forall_mem _ hc
  · simpa [signs] using hn.forall_mem _ hc

end Lisplet.Decimal

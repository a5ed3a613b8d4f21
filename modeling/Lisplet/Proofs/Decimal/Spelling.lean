import Lisplet.Decimal.Literal
import Mathlib.Tactic.Common

/-! The spellings of integers and reals. Reading accepts these and nothing else. -/

namespace Lisplet.Decimal

def IsDigits (cs : List Char) : Prop :=
  ∀ c ∈ cs, c.isDigit = true

inductive Sign : List Char → Bool → Prop
  | absent : Sign [] false
  | plus : Sign ['+'] false
  | minus : Sign ['-'] true

inductive SpellsInteger : List Char → Int → Prop
  | intro {sign digits : List Char} {negative : Bool} : Sign sign negative → digits ≠ [] →
      IsDigits digits → SpellsInteger (sign ++ digits) (signed negative (digitsValue digits))

inductive Mantissa : List Char → List Char → List Char → Prop
  | plain {whole : List Char} : IsDigits whole → Mantissa whole whole []
  | pointed {whole fraction : List Char} : IsDigits whole → IsDigits fraction →
      Mantissa (whole ++ '.' :: fraction) whole fraction

inductive Exponent : List Char → Int → Prop
  | absent : Exponent [] 0
  | marked {mark : Char} {cs : List Char} {e : Int} : mark = 'e' ∨ mark = 'E' →
      SpellsInteger cs e → Exponent (mark :: cs) e

inductive SpellsScientific : List Char → Scientific → Prop
  | intro {mantissa whole fraction exponent : List Char} {e : Int} :
      Mantissa mantissa whole fraction → whole ++ fraction ≠ [] → Exponent exponent e →
      SpellsScientific (mantissa ++ exponent)
        ⟨digitsValue (whole ++ fraction), e - fraction.length⟩

inductive SpellsReal : List Char → Float → Prop
  | intro {sign cs : List Char} {negative : Bool} {x : Scientific} : Sign sign negative →
      SpellsScientific cs x → SpellsReal (sign ++ cs) (withSign negative x.pattern)

lemma isDigits_cons {c : Char} {cs : List Char} :
    IsDigits (c :: cs) ↔ c.isDigit = true ∧ IsDigits cs :=
  List.forall_mem_cons

lemma isDigits_append {cs ds : List Char} :
    IsDigits (cs ++ ds) ↔ IsDigits cs ∧ IsDigits ds :=
  List.forall_mem_append

lemma isDigits_takeWhile (cs : List Char) : IsDigits (cs.takeWhile Char.isDigit) :=
  List.all_eq_true.1 List.all_takeWhile

lemma ne_of_isDigit {c d : Char} (h : c.isDigit = true) (hd : d.isDigit = false) : c ≠ d := by
  rintro rfl
  simp [h] at hd

def EndsDigits : List Char → Prop
  | [] => True
  | c :: _ => c.isDigit = false

lemma takeWhile_digits {cs rest : List Char} (h : IsDigits cs) (hr : EndsDigits rest) :
    (cs ++ rest).takeWhile Char.isDigit = cs := by
  rw [List.takeWhile_append_of_pos h]
  cases rest with
  | nil => simp
  | cons c rest =>
    rw [List.takeWhile_cons_of_neg (by simp [show c.isDigit = false from hr]), List.append_nil]

lemma dropWhile_digits {cs rest : List Char} (h : IsDigits cs) (hr : EndsDigits rest) :
    (cs ++ rest).dropWhile Char.isDigit = rest := by
  rw [List.dropWhile_append_of_pos h]
  cases rest with
  | nil => rfl
  | cons c rest => exact List.dropWhile_cons_of_neg (by simp [show c.isDigit = false from hr])

/-! Signs. -/

lemma sign_takeSign (cs : List Char) :
    ∃ sign, Sign sign (takeSign cs).1 ∧ cs = sign ++ (takeSign cs).2 := by
  rw [takeSign.eq_def]
  split
  · exact ⟨_, .minus, rfl⟩
  · exact ⟨_, .plus, rfl⟩
  · exact ⟨_, .absent, rfl⟩

lemma takeSign_append {sign cs : List Char} {negative : Bool} {c : Char} {rest : List Char}
    (h : Sign sign negative) (hcs : cs = c :: rest) (hplus : c ≠ '+') (hminus : c ≠ '-') :
    takeSign (sign ++ cs) = (negative, cs) := by
  subst hcs
  cases h with
  | absent =>
    rw [List.nil_append, takeSign.eq_def]
    split
    · next h => exact absurd (List.cons.inj h).1 hminus
    · next h => exact absurd (List.cons.inj h).1 hplus
    · rfl
  | plus => rfl
  | minus => rfl

lemma takeSign_digits {sign digits : List Char} {negative : Bool} (h : Sign sign negative)
    (hne : digits ≠ []) (hd : IsDigits digits) :
    takeSign (sign ++ digits) = (negative, digits) := by
  obtain ⟨c, rest, rfl⟩ := List.exists_cons_of_ne_nil hne
  have hc := (isDigits_cons.1 hd).1
  exact takeSign_append h rfl (ne_of_isDigit hc rfl) (ne_of_isDigit hc rfl)

/-! Integers. -/

theorem readInteger?_eq_some_iff {cs : List Char} {n : Int} :
    readInteger? cs = some n ↔ SpellsInteger cs n := by
  constructor
  · intro h
    obtain ⟨sign, hs, hcs⟩ := sign_takeSign cs
    have he := (Option.ite_none_right_eq_some).1 h
    rw [hcs, ← Option.some.inj he.2]
    exact .intro hs he.1.1 (List.all_eq_true.1 he.1.2)
  · rintro ⟨hs, hne, hd⟩
    rw [readInteger?, takeSign_digits hs hne hd]
    exact if_pos ⟨hne, List.all_eq_true.2 hd⟩

lemma readExponent?_eq_some_iff {cs : List Char} {e : Int} :
    readExponent? cs = some e ↔ Exponent cs e := by
  constructor
  · intro h
    rw [readExponent?.eq_def] at h
    split at h
    · cases h
      exact .absent
    · exact .marked (.inl rfl) (readInteger?_eq_some_iff.1 h)
    · exact .marked (.inr rfl) (readInteger?_eq_some_iff.1 h)
    · cases h
  · rintro (_ | ⟨rfl | rfl, h⟩)
    · rfl
    · exact readInteger?_eq_some_iff.2 h
    · exact readInteger?_eq_some_iff.2 h

/-! Reals. -/

lemma mantissa_takeDecimal (cs : List Char) :
    ∃ mantissa, Mantissa mantissa (takeDecimal cs).1 (takeDecimal cs).2.1 ∧
      cs = mantissa ++ (takeDecimal cs).2.2 := by
  have hcs := (List.takeWhile_append_dropWhile (p := Char.isDigit) (l := cs)).symm
  rw [takeDecimal]
  split
  · next rest h =>
    refine ⟨_, .pointed (isDigits_takeWhile cs) (isDigits_takeWhile rest), ?_⟩
    simpa [h, List.takeWhile_append_dropWhile] using hcs
  · exact ⟨_, .plain (isDigits_takeWhile cs), hcs⟩

lemma takeDecimal_append {mantissa whole fraction rest : List Char}
    (h : Mantissa mantissa whole fraction) (hr : EndsDigits rest)
    (hp : ∀ cs, rest ≠ '.' :: cs) :
    takeDecimal (mantissa ++ rest) = (whole, fraction, rest) := by
  cases h with
  | plain hw =>
    rw [takeDecimal, takeWhile_digits hw hr, dropWhile_digits hw hr]
    split
    · next cs => exact absurd rfl (hp cs)
    · rfl
  | pointed hw hf =>
    have hpoint : EndsDigits ('.' :: fraction ++ rest) := rfl
    rw [List.append_assoc, takeDecimal, takeWhile_digits hw hpoint, dropWhile_digits hw hpoint]
    simp only [List.cons_append, takeWhile_digits hf hr, dropWhile_digits hf hr]

lemma Exponent.endsDigits {cs : List Char} {e : Int} (h : Exponent cs e) : EndsDigits cs := by
  cases h with
  | absent => trivial
  | marked hm _ => rcases hm with rfl | rfl <;> rfl

lemma Exponent.ne_point {cs : List Char} {e : Int} (h : Exponent cs e) (rest : List Char) :
    cs ≠ '.' :: rest := by
  cases h with
  | absent => simp
  | marked hm _ => rcases hm with rfl | rfl <;> simp

theorem readScientific?_eq_some_iff {cs : List Char} {x : Scientific} :
    readScientific? cs = some x ↔ SpellsScientific cs x := by
  constructor
  · intro h
    obtain ⟨mantissa, hm, hcs⟩ := mantissa_takeDecimal cs
    rw [readScientific?] at h
    split at h
    next whole fraction rest hd =>
    rw [hd] at hm hcs
    split at h
    · cases h
    · next hne =>
      obtain ⟨e, he, rfl⟩ := Option.map_eq_some_iff.1 h
      rw [hcs]
      exact .intro hm (by simpa using hne) (readExponent?_eq_some_iff.1 he)
  · rintro ⟨hm, hne, he⟩
    rw [readScientific?, takeDecimal_append hm he.endsDigits he.ne_point]
    simp only
    rw [if_neg (by simpa using hne), readExponent?_eq_some_iff.2 he]
    rfl

lemma SpellsScientific.starts {cs : List Char} {x : Scientific} (h : SpellsScientific cs x) :
    ∃ c rest, c.isDigit = true ∧ (cs = c :: rest ∨ cs = '.' :: c :: rest) := by
  rcases h with @⟨_, whole, fraction, _, _, hm, hne, _⟩
  cases hm with
  | plain hw =>
    obtain ⟨c, rest, rfl⟩ := List.exists_cons_of_ne_nil (by simpa using hne)
    exact ⟨c, _, (isDigits_cons.1 hw).1, .inl rfl⟩
  | pointed hw hf =>
    cases whole with
    | cons c rest => exact ⟨c, _, (isDigits_cons.1 hw).1, .inl rfl⟩
    | nil =>
      obtain ⟨c, rest, rfl⟩ := List.exists_cons_of_ne_nil (by simpa using hne)
      exact ⟨c, _, (isDigits_cons.1 hf).1, .inr rfl⟩

lemma takeSign_scientific {sign cs : List Char} {negative : Bool} {x : Scientific}
    (hs : Sign sign negative) (h : SpellsScientific cs x) :
    takeSign (sign ++ cs) = (negative, cs) := by
  obtain ⟨c, rest, hc, rfl | rfl⟩ := h.starts
  · exact takeSign_append hs rfl (ne_of_isDigit hc rfl) (ne_of_isDigit hc rfl)
  · exact takeSign_append hs rfl (by decide) (by decide)

theorem readReal?_eq_some_iff {cs : List Char} {x : Float} :
    readReal? cs = some x ↔ SpellsReal cs x := by
  constructor
  · intro h
    obtain ⟨sign, hs, hcs⟩ := sign_takeSign cs
    obtain ⟨y, hy, hx⟩ := Option.map_eq_some_iff.1 h
    rw [hcs, ← hx]
    exact .intro hs (readScientific?_eq_some_iff.1 hy)
  · rintro ⟨hs, h⟩
    rw [readReal?, takeSign_scientific hs h]
    simp only
    rw [readScientific?_eq_some_iff.2 h]
    rfl

/-! The characters of numbers. -/

def signs : List Char :=
  ['+', '-']

def numeralMarks : List Char :=
  ['.', 'e', 'E'] ++ signs

lemma Sign.forall_mem {sign : List Char} {negative : Bool} (h : Sign sign negative) :
    ∀ c ∈ sign, c ∈ signs := by
  cases h with
  | absent => exact fun _ hc => absurd hc List.not_mem_nil
  | plus => simp [signs]
  | minus => simp [signs]

lemma SpellsInteger.forall_mem {cs : List Char} {n : Int} (h : SpellsInteger cs n) :
    ∀ c ∈ cs, c ∈ signs ∨ c.isDigit = true := by
  obtain ⟨hs, _, hd⟩ := h
  intro c hc
  exact (List.mem_append.1 hc).imp (hs.forall_mem c) (hd c)

lemma Mantissa.forall_mem {mantissa whole fraction : List Char}
    (h : Mantissa mantissa whole fraction) :
    ∀ c ∈ mantissa, c ∈ numeralMarks ∨ c.isDigit = true := by
  intro c hc
  cases h with
  | plain hw => exact .inr (hw c hc)
  | pointed hw hf =>
    rcases List.mem_append.1 hc with hc | hc
    · exact .inr (hw c hc)
    · rcases List.mem_cons.1 hc with rfl | hc
      · exact .inl (by decide)
      · exact .inr (hf c hc)

lemma mem_numeralMarks {c : Char} (h : c ∈ signs) : c ∈ numeralMarks :=
  List.mem_append_right _ h

lemma Exponent.forall_mem {cs : List Char} {e : Int} (h : Exponent cs e) :
    ∀ c ∈ cs, c ∈ numeralMarks ∨ c.isDigit = true := by
  cases h with
  | absent => exact fun _ hc => absurd hc List.not_mem_nil
  | marked hm hs =>
    have hmark : ∀ c, c = 'e' ∨ c = 'E' → c ∈ numeralMarks := by simp [numeralMarks]
    refine List.forall_mem_cons.2 ⟨.inl (hmark _ hm), fun c hc => ?_⟩
    exact (hs.forall_mem c hc).imp_left mem_numeralMarks

lemma SpellsReal.forall_mem {cs : List Char} {x : Float} (h : SpellsReal cs x) :
    ∀ c ∈ cs, c ∈ numeralMarks ∨ c.isDigit = true := by
  rcases h with ⟨hs, ⟨hm, _, he⟩⟩
  intro c hc
  rcases List.mem_append.1 hc with hc | hc
  · exact .inl (mem_numeralMarks (hs.forall_mem c hc))
  · exact (List.mem_append.1 hc).elim (hm.forall_mem c) (he.forall_mem c)

end Lisplet.Decimal

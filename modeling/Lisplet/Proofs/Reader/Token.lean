import Lisplet.Proofs.Decimal.Spelling
import Lisplet.Reader.Token

/-! What a token stands for, said by its spelling. -/

namespace Lisplet.Reader

open Decimal

def StartsNumeric (cs : List Char) : Prop :=
  ∃ sign negative point c rest, cs = sign ++ (point ++ c :: rest) ∧ Sign sign negative ∧
    (point = [] ∨ point = ['.']) ∧ c.isDigit = true

structure IsName (cs : List Char) : Prop where
  notNumeric : ¬ StartsNumeric cs
  notMarked : cs.head? ≠ some '#'

inductive Denotes : List Char → Value → Prop
  | number {cs : List Char} {n : Int64} : SpellsInteger cs n.toInt → Denotes cs (.number n)
  | real {cs : List Char} {x : Float} : SpellsReal cs x → (∀ n, ¬ SpellsInteger cs n) →
      x.isFinite = true → Denotes cs (.real x)
  | yes : Denotes ['#', 't'] (.boolean true)
  | no : Denotes ['#', 'f'] (.boolean false)
  | symbol {cs : List Char} : IsName cs → Denotes cs (.symbol (String.ofList cs))

lemma looksNumeric_digit {c : Char} (h : c.isDigit = true) {sign rest : List Char}
    {negative : Bool} (hs : Sign sign negative) : looksNumeric (sign ++ c :: rest) = true := by
  rw [looksNumeric, takeSign_append hs rfl (ne_of_isDigit h rfl) (ne_of_isDigit h rfl)]
  simp only
  split
  · next hpoint => exact absurd (List.cons.inj hpoint).1 (ne_of_isDigit h rfl)
  · next hc => rwa [← (List.cons.inj hc).1]
  · next hnil => cases hnil

lemma looksNumeric_point {c : Char} (h : c.isDigit = true) {sign rest : List Char}
    {negative : Bool} (hs : Sign sign negative) :
    looksNumeric (sign ++ '.' :: c :: rest) = true := by
  rw [looksNumeric, takeSign_append hs rfl (by decide) (by decide)]
  exact h

lemma looksNumeric_iff {cs : List Char} : looksNumeric cs = true ↔ StartsNumeric cs := by
  constructor
  · intro h
    obtain ⟨sign, hs, hcs⟩ := sign_takeSign cs
    rw [looksNumeric] at h
    split at h
    · next c rest hrest =>
      rw [hrest] at hcs
      exact ⟨sign, _, ['.'], c, rest, hcs, hs, .inr rfl, h⟩
    · next c rest _ hrest =>
      rw [hrest] at hcs
      exact ⟨sign, _, [], c, rest, hcs, hs, .inl rfl, h⟩
    · cases h
  · rintro ⟨sign, negative, point, c, rest, rfl, hs, rfl | rfl, hc⟩
    · exact looksNumeric_digit hc hs
    · exact looksNumeric_point hc hs

lemma StartsNumeric.ne_nil {cs : List Char} (h : StartsNumeric cs) : cs ≠ [] := by
  obtain ⟨sign, _, point, c, rest, rfl, _⟩ := h
  simp

lemma startsNumeric_integer {cs : List Char} {n : Int} (h : SpellsInteger cs n) :
    StartsNumeric cs := by
  obtain ⟨hs, hne, hd⟩ := h
  obtain ⟨c, rest, rfl⟩ := List.exists_cons_of_ne_nil hne
  exact ⟨_, _, [], c, rest, rfl, hs, .inl rfl, (isDigits_cons.1 hd).1⟩

lemma startsNumeric_real {cs : List Char} {x : Float} (h : SpellsReal cs x) :
    StartsNumeric cs := by
  obtain ⟨hs, h⟩ := h
  obtain ⟨c, rest, hc, rfl | rfl⟩ := h.starts
  · exact ⟨_, _, [], c, rest, rfl, hs, .inl rfl, hc⟩
  · exact ⟨_, _, ['.'], c, rest, rfl, hs, .inr rfl, hc⟩

lemma numberOf?_eq_some_iff {cs : List Char} {v : Value} :
    numberOf? cs = some v ↔
      (∃ n : Int64, SpellsInteger cs n.toInt ∧ v = .number n) ∨
      ∃ x, SpellsReal cs x ∧ (∀ n, ¬ SpellsInteger cs n) ∧ x.isFinite = true ∧ v = .real x := by
  simp only [← readInteger?_eq_some_iff, ← readReal?_eq_some_iff]
  rw [numberOf?]
  cases hi : readInteger? cs with
  | some n =>
    simp only [Option.map_eq_some_iff, Integer.fit?_eq_some_iff, Option.some.injEq]
    constructor
    · rintro ⟨m, hm, rfl⟩
      exact .inl ⟨m, hm.symm, rfl⟩
    · rintro (⟨m, hm, rfl⟩ | ⟨_, _, hn, _⟩)
      · exact ⟨m, hm.symm, rfl⟩
      · exact absurd rfl (hn n)
  | none =>
    cases hr : readReal? cs with
    | some x =>
      simp only [Option.ite_none_right_eq_some, Option.some.injEq]
      constructor
      · rintro ⟨hx, rfl⟩
        exact .inr ⟨x, rfl, nofun, hx, rfl⟩
      · rintro (⟨_, hn, _⟩ | ⟨y, rfl, _, hx, rfl⟩)
        · cases hn
        · exact ⟨hx, rfl⟩
    | none => simp

lemma atom?_numeric {cs : List Char} (h : StartsNumeric cs) : atom? cs = numberOf? cs :=
  if_pos (looksNumeric_iff.2 h)

lemma atom?_name {cs : List Char} (h : IsName cs) :
    atom? cs = some (.symbol (String.ofList cs)) := by
  rw [atom?.eq_def, if_neg (looksNumeric_iff.not.2 h.notNumeric)]
  split
  · exact absurd rfl h.notMarked
  · exact absurd rfl h.notMarked
  · exact absurd rfl h.notMarked
  · rfl

lemma denotes_of_not_numeric {cs : List Char} {v : Value} (hn : ¬ StartsNumeric cs)
    (h : atom? cs = some v) : Denotes cs v := by
  rw [atom?.eq_def, if_neg (looksNumeric_iff.not.2 hn)] at h
  split at h
  · cases h
    exact .yes
  · cases h
    exact .no
  · cases h
  · next hm =>
    cases h
    refine .symbol ⟨hn, fun hc => ?_⟩
    obtain ⟨rest, rfl⟩ := List.head?_eq_some_iff.1 hc
    exact hm rest rfl

theorem atom?_eq_some_iff {cs : List Char} {v : Value} : atom? cs = some v ↔ Denotes cs v := by
  constructor
  · intro h
    by_cases hn : StartsNumeric cs
    · rw [atom?_numeric hn, numberOf?_eq_some_iff] at h
      rcases h with ⟨n, hs, rfl⟩ | ⟨x, hs, hi, hx, rfl⟩
      · exact .number hs
      · exact .real hs hi hx
    · exact denotes_of_not_numeric hn h
  · intro h
    cases h with
    | number hs =>
      rw [atom?_numeric (startsNumeric_integer hs)]
      exact numberOf?_eq_some_iff.2 (.inl ⟨_, hs, rfl⟩)
    | real hs hi hx =>
      rw [atom?_numeric (startsNumeric_real hs)]
      exact numberOf?_eq_some_iff.2 (.inr ⟨_, hs, hi, hx, rfl⟩)
    | yes => rfl
    | no => rfl
    | symbol h => exact atom?_name h

end Lisplet.Reader

import Mathlib.Data.List.Lex
import Mathlib.Data.String.Basic

/-! The bytes of a text. A line feed is a byte of its own, which is part of no other character, and
texts are in the order of their bytes. -/

namespace Lisplet.Text

open String (utf8EncodeChar)

def bytes (s : String) : List UInt8 :=
  s.toUTF8.data.toList

def lineFeed : UInt8 := 10

variable {c d : Char} {s t : String} {m n : ℕ} {xs ys : List UInt8}

lemma bytes_eq (s : String) : bytes s = s.toList.flatMap utf8EncodeChar := by
  have hencode : s.toUTF8 = s.toList.utf8Encode := by
    rw [String.toUTF8_eq_toByteArray, ← String.toByteArray_ofList, String.ofList_toList]
  rw [bytes, hencode]
  exact List.toList_data_toByteArray

lemma lineFeed_mem_cons (hm : 127 < m) (hm' : m < 256) :
    lineFeed ∈ UInt8.ofNat m :: xs ↔ lineFeed ∈ xs := by
  refine List.mem_cons.trans (or_iff_right fun h => ?_)
  have hnat : 10 = m := (congrArg UInt8.toNat h).trans (UInt8.toNat_ofNat_of_lt' hm')
  omega

lemma lineFeed_mem_iff : lineFeed ∈ utf8EncodeChar c ↔ c = '\n' := by
  constructor
  · intro h
    rw [utf8EncodeChar] at h
    split_ifs at h with hshort
    · have hnat : 10 = c.val.toNat := (congrArg UInt8.toNat (List.mem_singleton.1 h)).trans
        (UInt8.toNat_ofNat_of_lt' (Nat.lt_succ_of_le (hshort.trans (by decide))))
      exact Char.toNat_inj.1 hnat.symm
    -- all bytes of a longer character are above 127
    all_goals
      simp (disch := omega) only [lineFeed_mem_cons, List.not_mem_nil] at h
  · rintro rfl
    decide

/-! The order of bytes. -/

def trail (m : ℕ) : UInt8 :=
  UInt8.ofNat (m % 64 + 128)

lemma cons_ofNat_lt (hm : m < 256) (hn : n < 256) (h : m < n ∨ m = n ∧ xs < ys) :
    UInt8.ofNat m :: xs < UInt8.ofNat n :: ys := by
  rw [List.cons_lt_cons_iff, UInt8.ofNat_lt_iff_lt hm hn]
  exact h.imp_right (And.imp_left (congrArg _))

lemma digit_lt (h : m < n ∨ m = n ∧ xs < ys) :
    m / 64 < n / 64 ∨ m / 64 = n / 64 ∧ trail m :: xs < trail n :: ys := by
  have hdigit : m / 64 < n / 64 ∨ m / 64 = n / 64 ∧
      (m % 64 + 128 < n % 64 + 128 ∨ m % 64 + 128 = n % 64 + 128 ∧ xs < ys) := by
    rcases h with h | ⟨rfl, h⟩
    · omega
    · exact .inr ⟨rfl, .inr ⟨rfl, h⟩⟩
  exact hdigit.imp_right (And.imp_right (cons_ofNat_lt (by omega) (by omega)))

lemma utf8EncodeChar_lt (h : c < d) (xs ys : List UInt8) :
    utf8EncodeChar c ++ xs < utf8EncodeChar d ++ ys := by
  have hlt : c.val.toNat < d.val.toNat := h
  have hd : d.val.toNat < 1114112 := by
    rcases d.valid with h | h <;> omega
  rw [utf8EncodeChar, utf8EncodeChar]
  generalize c.val.toNat = m at hlt
  generalize d.val.toNat = n at hlt hd
  have htwo : m / 64 < n / 64 ∨ m / 64 = n / 64 ∧ trail m :: xs < trail n :: ys := digit_lt (.inl hlt)
  have hthree := digit_lt htwo
  have hfour := digit_lt hthree
  simp only [Nat.div_div_eq_div_mul] at hthree hfour
  split_ifs
  all_goals refine cons_ofNat_lt (by omega) (by omega) ?_
  all_goals try exact .inl (by omega)
  · exact htwo.imp (by omega) (And.imp_left (by omega))
  · exact hthree.imp (by omega) (And.imp_left (by omega))
  · exact hfour.imp (by omega) (And.imp_left (by omega))

lemma flatMap_utf8EncodeChar_lt {as bs : List Char} (h : as < bs) :
    as.flatMap utf8EncodeChar < bs.flatMap utf8EncodeChar := by
  induction h with
  | @nil b bs =>
    obtain ⟨x, xs, hx⟩ := List.exists_cons_of_ne_nil (String.utf8EncodeChar_ne_nil (c := b))
    rw [List.flatMap_cons, hx]
    exact List.nil_lt_cons ..
  | cons _ ih => exact List.append_left_lt ih
  | rel hlt => exact utf8EncodeChar_lt hlt _ _

lemma bytes_lt_iff : bytes s < bytes t ↔ s < t := by
  have hmono {s t : String} (h : s < t) : bytes s < bytes t := by
    rw [bytes_eq, bytes_eq]
    exact flatMap_utf8EncodeChar_lt h
  refine ⟨fun h => ?_, hmono⟩
  by_contra hnot
  rcases (not_lt.1 hnot).eq_or_lt with rfl | hlt
  · exact List.lt_irrefl _ h
  · exact List.lt_asymm h (hmono hlt)

end Lisplet.Text

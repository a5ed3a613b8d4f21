import Lisplet.Location
import Lisplet.Proofs.Text.Bytes
import Mathlib.Data.List.Basic
import Mathlib.Data.Prod.Lex

/-! Lines and columns. The line and the column of a fault say as exactly as its offset where it is,
also behind the end of the text, and they are in the order of the offsets. -/

namespace Lisplet

namespace Location

open String (utf8EncodeChar)
open Text (bytes lineFeed)

variable {source : String} {offset later n : ℕ}

def lineStart (source : String) : ℕ → ℕ
  | n + 2 => (bytes source).idxOfNth lineFeed n + 1
  | _ => 0

lemma lineFeeds_eq (offset : ℕ) (cs : List Char) :
    lineFeeds offset cs = (cs.flatMap utf8EncodeChar).idxsOf lineFeed offset := by
  induction cs generalizing offset with
  | nil => rfl
  | cons c cs ih =>
    rw [List.flatMap_cons, List.idxsOf_append, String.length_utf8EncodeChar, lineFeeds, ih]
    by_cases hc : c = '\n'
    · subst hc
      rfl
    · have hnone : (utf8EncodeChar c).idxsOf lineFeed offset = [] :=
        List.idxsOf_eq_nil_iff.2 fun b hb => beq_false_of_ne fun heq =>
          hc (Text.lineFeed_mem_iff.1 (heq ▸ hb))
      rw [if_neg hc, hnone, List.nil_append]

lemma filter_idxsOf (xs : List UInt8) (b : UInt8) (n : ℕ) :
    (xs.idxsOf b).filter (· < n) = (xs.take n).idxsOf b := by
  have hsplit : xs.idxsOf b =
      (xs.take n).idxsOf b ++ (xs.drop n).idxsOf b (0 + (xs.take n).length) := by
    rw [← List.idxsOf_append, List.take_append_drop]
  have hbefore : ∀ k ∈ (xs.take n).idxsOf b, decide (k < n) = true := fun k hk =>
    decide_eq_true ((List.lt_add_of_mem_idxsOf k hk).trans_le (List.length_take_le n xs))
  have hbehind : ∀ k ∈ (xs.drop n).idxsOf b (0 + (xs.take n).length), ¬ decide (k < n) = true := by
    intro k hk hlt
    have hge := List.ge_of_mem_idxsOf k hk
    rw [Nat.zero_add, List.length_take] at hge
    have hshort : xs.length ≤ n := by
      have hlt := of_decide_eq_true hlt
      omega
    rw [List.drop_eq_nil_of_le hshort] at hk
    exact List.not_mem_nil hk
  rw [hsplit, List.filter_append, List.filter_eq_self.2 hbefore, List.filter_eq_nil_iff.2 hbehind,
    List.append_nil]

lemma lineFeedsBefore_eq :
    lineFeedsBefore source offset = ((bytes source).take offset).idxsOf lineFeed := by
  rw [lineFeedsBefore, lineFeeds_eq, ← Text.bytes_eq, filter_idxsOf]

lemma line_eq : line source offset = ((bytes source).take offset).count lineFeed + 1 := by
  rw [line, lineFeedsBefore_eq, List.length_idxsOf]

lemma lineStart_add_column : 1 ≤ column source offset ∧
    lineStart source (line source offset) + column source offset = offset + 1 := by
  have hlength : (((bytes source).take offset).idxsOf lineFeed).length =
      ((bytes source).take offset).count lineFeed := List.length_idxsOf
  rw [line_eq, column, lineFeedsBefore_eq]
  cases hcount : ((bytes source).take offset).count lineFeed with
  | zero =>
    rw [List.eq_nil_of_length_eq_zero (hlength.trans hcount)]
    exact ⟨Nat.le_add_left .., Nat.zero_add _⟩
  | succ k =>
    -- the last line feed before the offset is the one at the end of the line before
    have hfirst : ((bytes source).take offset).idxsOf lineFeed =
        ((bytes source).idxsOf lineFeed).take (k + 1) := by
      rw [List.idxsOf_take, hcount]
    have hk : k < ((bytes source).idxsOf lineFeed).length := by
      rw [hcount, hfirst, List.length_take] at hlength
      omega
    have hlast : (((bytes source).take offset).idxsOf lineFeed).getLast? =
        some ((bytes source).idxOfNth lineFeed k) := by
      rw [List.getLast?_eq_getElem?, hlength, hcount, Nat.add_sub_cancel, hfirst,
        List.getElem?_take_of_lt (Nat.lt_succ_self k), List.getElem?_eq_getElem hk,
        List.getElem_idxOf_eq_idxOfNth]
    have hbefore : (bytes source).idxOfNth lineFeed k < offset :=
      (List.lt_add_of_mem_idxsOf _ (List.mem_of_getLast? hlast)).trans_le (List.length_take_le ..)
    rw [hlast, lineStart]
    dsimp only
    omega

lemma line_mono (h : offset ≤ later) : line source offset ≤ line source later := by
  rw [line_eq, line_eq]
  exact Nat.succ_le_succ ((List.take_prefix_take_left h).sublist.count_le lineFeed)

lemma line_le : line source offset ≤ offset + 1 := by
  rw [line_eq]
  exact Nat.succ_le_succ (List.count_le_length.trans (List.length_take_le ..))

lemma lt_iff : offset < later ↔
    toLex (line source offset, column source offset) < toLex (line source later, column source later) := by
  have hmono {offset later : ℕ} (h : offset < later) :
      toLex (line source offset, column source offset) <
        toLex (line source later, column source later) := by
    obtain ⟨-, hoffset⟩ := @lineStart_add_column source offset
    obtain ⟨-, hlater⟩ := @lineStart_add_column source later
    rw [Prod.Lex.toLex_lt_toLex]
    rcases (line_mono h.le).lt_or_eq with hline | hline
    · exact .inl hline
    · rw [hline] at hoffset
      exact .inr ⟨hline, by omega⟩
  refine ⟨hmono, fun h => ?_⟩
  by_contra hnot
  rcases (not_lt.1 hnot).eq_or_lt with rfl | hlt
  · exact lt_irrefl _ h
  · exact lt_asymm h (hmono hlt)

end Location

namespace SyntaxFault

open Text (bytes lineFeed)

lemma lineStart_add_column (fault : SyntaxFault) : 1 ≤ fault.column ∧
    Location.lineStart fault.source fault.line + fault.column = fault.offset + 1 :=
  Location.lineStart_add_column

/-- The line of a fault counts the line feeds before it, and its column the bytes from the start of
the line on, so that the two lead back to the offset, and no two offsets in a text share them. They
exceed the offset by one at most, and nothing is lost in the subtraction by which a column is found:
the column is not zero. -/
theorem line_column (fault : SyntaxFault) :
    fault.line =
        1 + ((bytes fault.source).take (min fault.offset fault.source.utf8ByteSize)).count lineFeed ∧
      1 ≤ fault.column ∧
      fault.offset = Location.lineStart fault.source fault.line + fault.column - 1 ∧
      fault.line ≤ fault.offset + 1 ∧ fault.column ≤ fault.offset + 1 ∧
      ∀ other : SyntaxFault, other.source = fault.source →
        (fault.offset < other.offset ↔
          toLex (fault.line, fault.column) < toLex (other.line, other.column)) ∧
        (fault.offset = other.offset ↔ fault.line = other.line ∧ fault.column = other.column) := by
  obtain ⟨hcolumn, hoffset⟩ := fault.lineStart_add_column
  have htake : (bytes fault.source).take (min fault.offset fault.source.utf8ByteSize) =
      (bytes fault.source).take fault.offset := List.take_eq_take_min.symm
  refine ⟨?_, hcolumn, by omega, Location.line_le, by omega, fun other hsource => ⟨?_, ?_⟩⟩
  · rw [htake, line, Location.line_eq, Nat.add_comm]
  · rw [Location.lt_iff, line, column, line, column, hsource]
  · constructor
    · intro heq
      rw [line, column, line, column, hsource, heq]
      exact ⟨rfl, rfl⟩
    · rintro ⟨hline, hcolumn⟩
      obtain ⟨-, hother⟩ := other.lineStart_add_column
      rw [hsource, ← hline, ← hcolumn] at hother
      omega

theorem line_column_beyond :
    SyntaxFault.line ⟨.incomplete, "é\ncd", 3, none⟩ = 2 ∧
      SyntaxFault.column ⟨.incomplete, "é\ncd", 3, none⟩ = 1 ∧
      SyntaxFault.line ⟨.invalid, "é\ncd", 99, some "x"⟩ = 2 ∧
      SyntaxFault.column ⟨.invalid, "é\ncd", 99, some "x"⟩ = 97 ∧
      (3 < 99 ↔ toLex (2, 1) < toLex (2, 97)) :=
  ⟨rfl, rfl, rfl, rfl,
    ((line_column ⟨.incomplete, "é\ncd", 3, none⟩).2.2.2.2.2
      ⟨.invalid, "é\ncd", 99, some "x"⟩ rfl).1⟩

end SyntaxFault

end Lisplet

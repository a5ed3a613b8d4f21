import Lisplet.Proofs.Library.Integers
import Lisplet.Proofs.Reader.Reading

/-! The classes of tokens. Every token belongs to one of them, and the reader tells them apart. -/

namespace Lisplet.Reader

open Decimal State

variable {cs rest : List Char} {outcome : Option Value}

inductive Classified : List Char → Option Value → Prop
  | integer {cs : List Char} {n : Int64} : SpellsInteger cs n.toInt →
      Classified cs (some (.number n))
  | overflow {cs : List Char} {n : ℤ} : SpellsInteger cs n → n ∉ Integer.range →
      Classified cs none
  | real {cs : List Char} {x : Float} : StartsNumeric cs → (∀ n, ¬ SpellsInteger cs n) →
      SpellsReal cs x → x.isFinite = true → Classified cs (some (.real x))
  | broken {cs : List Char} : StartsNumeric cs → (∀ n, ¬ SpellsInteger cs n) →
      (∀ x, SpellsReal cs x → x.isFinite = false) → Classified cs none
  | yes : Classified ['#', 't'] (some (.boolean true))
  | no : Classified ['#', 'f'] (some (.boolean false))
  | marked {cs : List Char} : cs ≠ ['t'] → cs ≠ ['f'] → Classified ('#' :: cs) none
  | symbol {cs : List Char} : ¬ StartsNumeric cs → cs.head? ≠ some '#' →
      Classified cs (some (.symbol (String.ofList cs)))

lemma Classified.atom?_eq (h : Classified cs outcome) : atom? cs = outcome := by
  cases h with
  | integer hn => exact atom?_eq_some_iff.2 (.number hn)
  | overflow hn hout =>
    rw [atom?_numeric (startsNumeric_integer hn), numberOf?, readInteger?_eq_some_iff.2 hn]
    exact Option.map_eq_none_iff.2 (Integer.fit?_eq_none_iff.2 hout)
  | real _ hn hx hfinite => exact atom?_eq_some_iff.2 (.real hx hn hfinite)
  | broken hstart hn hx =>
    rw [atom?_numeric hstart]
    refine Option.eq_none_iff_forall_ne_some.2 fun v hv => ?_
    rcases numberOf?_eq_some_iff.1 hv with ⟨n, hspells, -⟩ | ⟨x, hspells, -, hfinite, -⟩
    · exact hn _ hspells
    · exact Bool.false_ne_true ((hx x hspells).symm.trans hfinite)
  | yes => rfl
  | no => rfl
  | @marked cs ht hf =>
    have hplain : ¬ looksNumeric ('#' :: cs) = true := Bool.false_ne_true
    rw [atom?.eq_def, if_neg hplain]
    split
    · next h => exact absurd (List.cons.inj h).2 ht
    · next h => exact absurd (List.cons.inj h).2 hf
    · rfl
    · next h => exact absurd rfl (h cs)
  | symbol hstart hhead =>
    exact atom?_name ⟨hstart, hhead⟩

lemma exists_classified_integer {n : Int} (h : SpellsInteger cs n) :
    ∃ outcome, Classified cs outcome := by
  cases hn : Integer.fit? n with
  | some m =>
    obtain rfl := Integer.fit?_eq_some_iff.1 hn
    exact ⟨_, .integer h⟩
  | none => exact ⟨_, .overflow h (Integer.fit?_eq_none_iff.1 hn)⟩

lemma exists_classified_numeric (hstart : StartsNumeric cs) (hn : ∀ n, ¬ SpellsInteger cs n) :
    ∃ outcome, Classified cs outcome := by
  by_cases hx : ∃ x, SpellsReal cs x ∧ x.isFinite = true
  · obtain ⟨x, hspells, hfinite⟩ := hx
    exact ⟨_, .real hstart hn hspells hfinite⟩
  · refine ⟨_, .broken hstart hn fun x hspells => ?_⟩
    exact Bool.eq_false_iff.2 fun hfinite => hx ⟨x, hspells, hfinite⟩

lemma exists_classified_name (h : ¬ StartsNumeric cs) : ∃ outcome, Classified cs outcome := by
  by_cases hhead : cs.head? = some '#'
  · obtain ⟨rest, rfl⟩ := List.head?_eq_some_iff.1 hhead
    by_cases ht : rest = ['t']
    · exact ⟨_, ht ▸ Classified.yes⟩
    by_cases hf : rest = ['f']
    · exact ⟨_, hf ▸ Classified.no⟩
    exact ⟨_, .marked ht hf⟩
  · exact ⟨_, .symbol h hhead⟩

lemma exists_classified (cs : List Char) : ∃ outcome, Classified cs outcome := by
  by_cases hn : ∃ n, SpellsInteger cs n
  · exact exists_classified_integer hn.choose_spec
  by_cases hstart : StartsNumeric cs
  · exact exists_classified_numeric hstart (not_exists.1 hn)
  · exact exists_classified_name hstart

lemma classified_iff : atom? cs = outcome ↔ Classified cs outcome := by
  refine ⟨?_, Classified.atom?_eq⟩
  rintro rfl
  obtain ⟨outcome, h⟩ := exists_classified cs
  rwa [h.atom?_eq]

/-- A token is classified by how it is spelled, and by nothing else. Its value goes where a form is
awaited; a token that is refused is the fault. -/
theorem run_token_classified {options : Options} {s : State} (hs : s.mode = .between)
    (hne : cs ≠ []) (hcs : ∀ c ∈ cs, isTokenChar c = true) (hrest : EndsToken rest) :
    (∀ outcome, atom? cs = outcome ↔ Classified cs outcome) ∧
    (∀ n, atom? cs = some (.number n) ↔ SpellsInteger cs n.toInt) ∧
    (∀ x, atom? cs = some (.real x) ↔
      (∀ n, ¬ SpellsInteger cs n) ∧ SpellsReal cs x ∧ x.isFinite = true) ∧
    run options s (cs ++ rest) =
      match atom? cs with
      | some v => run options ((s.begin.deliver v).skip cs) rest
      | none => .error ⟨.invalid, s.position⟩ := by
  refine ⟨fun _ => classified_iff, fun n => ?_, fun x => ?_, run_token_settled hs hne hcs hrest⟩
  · refine classified_iff.trans ⟨?_, .integer⟩
    rintro ⟨hn⟩
    exact hn
  · refine classified_iff.trans ⟨?_, ?_⟩
    · rintro ⟨⟩
      exact ⟨‹_›, ‹_›, ‹_›⟩
    · rintro ⟨hn, hx, hfinite⟩
      exact .real (startsNumeric_real hx) hn hx hfinite

theorem run_token_classified_limits :
    Classified "-9223372036854775808".toList (some (.number Int64.minValue)) ∧
    Classified "9223372036854775808".toList none ∧
    Classified "..5".toList (some (.symbol "..5")) ∧
    run defaultOptions initial ("1e".toList ++ [')']) = .error ⟨.invalid, 0⟩ := by
  have hreader (cs rest : List Char) (hne : cs ≠ []) (hcs : cs.all isTokenChar = true)
      (hrest : EndsToken rest) :=
    @run_token_classified cs rest defaultOptions initial rfl hne (List.all_eq_true.1 hcs) hrest
  have hbeyond : atom? "9223372036854775808".toList = none :=
    Option.isNone_iff_eq_none.1 (by decide +kernel)
  refine ⟨?_, ?_, ?_, ?_⟩
  · exact ((hreader _ [] (by decide) rfl trivial).1 _).1 rfl
  · exact ((hreader _ [] (by decide) rfl trivial).1 _).1 hbeyond
  · exact ((hreader _ [] (by decide) rfl trivial).1 _).1 rfl
  · exact (hreader "1e".toList [')'] (by decide) rfl rfl).2.2.2

end Lisplet.Reader

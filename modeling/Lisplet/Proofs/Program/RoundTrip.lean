import Lisplet.Program
import Lisplet.Proofs.Reader.Readable

/-! The text of a program is source text of the same program. -/

namespace Lisplet.Program

open Reader Value

lemma ofSource_eq_ok {options : Options} {label : Option String} {source : String} {p : Program} :
    ofSource options label source = .ok p ↔
      readForms options label source = .ok p.entries ∧ p.source = source ∧ p.label = label := by
  rw [ofSource]
  cases readForms options label source with
  | error fault => exact ⟨nofun, nofun⟩
  | ok fs =>
    cases p
    simp [Except.map]
    tauto

lemma ofSource_eq_error {options : Options} {label : Option String} {source : String}
    {fault : SyntaxFault} :
    ofSource options label source = .error fault ↔
      readForms options label source = .error fault := by
  rw [ofSource]
  cases readForms options label source with
  | error other => simp [Except.map]
  | ok entries => exact ⟨nofun, nofun⟩

theorem ofSource_text {options : Options} {label : Option String} {source : String} {p : Program}
    (h : ofSource options label source = .ok p) :
    ∃ q, ofSource defaultOptions none p.text = .ok q ∧ q.forms.length = p.forms.length ∧
      List.Forall₂ (fun v w => (v == w) = true) q.forms p.forms ∧ q.text = p.text := by
  have hp : ∀ v ∈ p.forms, Readable v := readable_of_readForms (ofSource_eq_ok.1 h).1
  obtain ⟨fs, hfs, hmap⟩ := readForms_itemChars defaultOptions none hp
  have hequal : List.Forall₂ (fun v w => (v == w) = true) (unmarkedItems p.forms) p.forms :=
    equalItems_iff_forall₂.1 (equalItems_unmarkedItems fun v hv => (hp v hv).equal_unmarked)
  have hq : forms ⟨p.text, none, fs⟩ = unmarkedItems p.forms := hmap
  refine ⟨⟨p.text, none, fs⟩, ofSource_eq_ok.2 ⟨hfs, rfl, rfl⟩, ?_, ?_, ?_⟩
  · rw [hq]
    exact hequal.length_eq
  · rw [hq]
    exact hequal
  · rw [text, hq, itemChars_unmarkedItems, text]

theorem ofSource_text_quoted :
    ∃ p q, ofSource ⟨false⟩ none "[a'(b\"x\\n\")]#t" = .ok p ∧
      p.forms = [ofList [symbol "a", quoted (ofList [symbol "b", string "x\n"])], boolean true] ∧
      ofSource defaultOptions none p.text = .ok q ∧ q.forms.length = 2 ∧ q.text = p.text := by
  obtain ⟨p, hp, hforms⟩ : ∃ p, ofSource ⟨false⟩ none "[a'(b\"x\\n\")]#t" = .ok p ∧
      p.forms = [ofList [symbol "a", quoted (ofList [symbol "b", string "x\n"])],
        boolean true] := ⟨_, rfl, rfl⟩
  obtain ⟨q, hq, hlength, _, htext⟩ := ofSource_text hp
  rw [hforms] at hlength
  exact ⟨p, q, hp, hforms, hq, hlength, htext⟩

end Lisplet.Program

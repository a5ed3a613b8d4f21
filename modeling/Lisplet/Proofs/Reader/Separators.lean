import Lisplet.Proofs.Reader.Outline
import Lisplet.Proofs.Reader.Shift

/-! Blanks between two texts. Behind a text that is read, the four blanks that may stand between forms
are the same to a reader. At any other blank it ends its token but does not go on. -/

namespace Lisplet.Reader

open State

def Alike : Except SyntaxFault (List (ℕ × Value)) → Except SyntaxFault (List (ℕ × Value)) → Prop
  | .ok fs, .ok gs => fs.map Prod.snd = gs.map Prod.snd
  | .error _, .error _ => True
  | _, _ => False

variable {options : Options} {s t : State} {c : Char} {fs : List (ℕ × Value)}

lemma isTokenChar_of_isBlank (hc : Text.isBlank c = true) : isTokenChar c = false := by
  simp [isTokenChar, hc]

lemma size_space (hc : c ∈ spaces) : size [c] = 1 := by
  simp only [spaces, List.mem_cons, List.not_mem_nil, or_false] at hc
  rcases hc with rfl | rfl | rfl | rfl <;> rfl

lemma region_of_finish (h : s.finish = .ok fs) (hs : s.mode.region ≠ .comment) :
    s.mode.region = .code := by
  obtain ⟨t, ht, hstring, -⟩ := finish_eq_ok h
  by_contra hcode
  rw [settle_of_region hcode] at ht
  cases ht
  -- in a string the text would be incomplete
  obtain ⟨position, _ | _ | _ | _ | _, levels, start, forms⟩ := s
  case between => exact hcode rfl
  case comment => exact hs rfl
  case token => exact hcode rfl
  case string => cases hstring
  case escape => cases hstring

lemma exists_separated {first : List Char} (h : run options initial first = .ok fs)
    (hregion : (outline first).region ≠ .comment) :
    ∃ t : State, t.position = size first ∧ ∀ c, Text.isBlank c = true → ∀ second,
      run options initial (first ++ c :: second) =
        (t.dispatch options c).bind fun u => run options (u.skip [c]) second := by
  obtain ⟨s, hs, hfinish⟩ := bind_eq_ok h
  have hcode : s.mode.region = .code :=
    region_of_finish hfinish ((outlined_initial.feedAll hs).region.trans_ne hregion)
  obtain ⟨t, ht, -⟩ := finish_eq_ok hfinish
  refine ⟨t, ?_, fun c hc second => ?_⟩
  · rw [settle_position ht, feedAll_position hs]
    exact Nat.zero_add _
  · rw [run_append, hs, Except.bind, run_cons, read_code hcode (isTokenChar_of_isBlank hc), ht]
    rfl

lemma run_spaced {first : List Char} (h : run options initial first = .ok fs)
    (hregion : (outline first).region ≠ .comment) (hc : c ∈ spaces) (second : List Char) :
    run options initial (first ++ c :: second) = run options initial (first ++ ' ' :: second) := by
  obtain ⟨t, -, hrun⟩ := exists_separated h hregion
  have hspace : ' ' ∈ spaces := by simp [spaces]
  rw [hrun c (Text.isBlank_of_isSpace (isSpace_iff.2 hc)), hrun ' ' rfl, dispatch_space hc,
    dispatch_space hspace, Except.bind, Except.bind, skip, skip, size_space hc, size_space hspace]

lemma run_strayed {first : List Char} (h : run options initial first = .ok fs)
    (hregion : (outline first).region ≠ .comment) (hc : Text.isBlank c = true) (hs : c ∉ spaces)
    (second : List Char) :
    run options initial (first ++ c :: second) = .error ⟨.invalid, size first⟩ := by
  obtain ⟨t, hposition, hrun⟩ := exists_separated h hregion
  rw [hrun c hc, dispatch_stray (.inr ⟨hc, hs⟩), hposition]
  rfl

/-- Behind a text that is read and does not end in a comment, any of the spaces does what any other
does. Any other blank is a fault, so that it does the same only in front of a text that makes the
whole one fail anyway. -/
theorem readForms_separator {label : Option String} {first : String}
    (h : readForms options label first = .ok fs)
    (hregion : (outline first.toList).region ≠ .comment) {c : Char} (hc : Text.isBlank c = true)
    (second : String) :
    let text := first ++ String.singleton c ++ second
    let spaced := first ++ " " ++ second
    (Text.isSpace c = true → readForms options label text =
      (readForms options label spaced).mapError fun fault => { fault with source := text }) ∧
    (Text.isSpace c = false → readForms options label text =
      .error ⟨.invalid, text, first.utf8ByteSize, label⟩) ∧
    (Alike (readForms options label text) (readForms options label spaced) ↔
      Text.isSpace c = true ∨ ∃ fault, readForms options label spaced = .error fault) := by
  intro text spaced
  have hrun : run options initial first.toList = .ok fs := readForms_eq_ok.1 h
  have htext : text.toList = first.toList ++ c :: second.toList := by simp [text]
  have hspaced : spaced.toList = first.toList ++ ' ' :: second.toList := by simp [spaced]
  have hsame (hc : Text.isSpace c = true) : readForms options label text =
      (readForms options label spaced).mapError fun fault => { fault with source := text } := by
    have hforms : forms options text.toList = forms options spaced.toList := by
      rw [htext, hspaced]
      exact run_spaced hrun hregion (isSpace_iff.1 hc) second.toList
    rw [readForms, readForms, hforms]
    cases forms options spaced.toList <;> rfl
  have hfault (hspace : Text.isSpace c = false) : readForms options label text =
      .error ⟨.invalid, text, first.utf8ByteSize, label⟩ := by
    have hstray : c ∉ spaces := fun hmem => by simp [isSpace_iff.2 hmem] at hspace
    refine readForms_eq_error.2 ⟨⟨.invalid, size first.toList⟩, ?_, ?_⟩
    · rw [htext]
      exact run_strayed hrun hregion hc hstray second.toList
    · rw [size_toList]
  refine ⟨hsame, hfault, ?_⟩
  cases hspace : Text.isSpace c with
  | true =>
    rw [hsame hspace]
    refine iff_of_true ?_ (.inl rfl)
    cases readForms options label spaced with
    | ok gs => rfl
    | error fault => trivial
  | false =>
    rw [hfault hspace]
    cases readForms options label spaced with
    | ok gs => simp [Alike]
    | error fault => simp [Alike]

theorem readForms_separator_string :
    readForms ⟨false⟩ none "(a \";\")" = .ok [(0, .ofList [.symbol "a", .string ";"])] ∧
      readForms ⟨false⟩ none "(a \";\")\t'b" = .ok [(0, .ofList [.symbol "a", .string ";"]),
        (8, .quoted (.symbol "b"))] ∧
      readForms ⟨false⟩ none "(a \";\")\u00a0'b" =
        .error ⟨.invalid, "(a \";\")\u00a0'b", 7, none⟩ := by
  have h : readForms ⟨false⟩ none "(a \";\")" = .ok [(0, .ofList [.symbol "a", .string ";"])] := rfl
  have hregion : (outline "(a \";\")".toList).region ≠ .comment := by decide
  refine ⟨h, ?_, ?_⟩
  · exact (readForms_separator h hregion (c := '\t') rfl "'b").1 rfl
  · exact (readForms_separator h hregion (c := '\u00a0') rfl "'b").2.1 rfl

theorem readForms_tabulated :
    Text.isBlank '\x0b' = true ∧ readForms ⟨true⟩ none "1" = .ok [(0, .number 1)] ∧
      (outline "1".toList).region ≠ .comment ∧
      ¬ Alike (readForms ⟨true⟩ none "1\x0b2") (readForms ⟨true⟩ none "1 2") := by
  have htabulated : readForms ⟨true⟩ none "1\x0b2" = .error ⟨.invalid, "1\x0b2", 1, none⟩ := rfl
  have hspaced : readForms ⟨true⟩ none "1 2" = .ok [(0, .number 1), (2, .number 2)] := rfl
  refine ⟨rfl, rfl, by decide, ?_⟩
  rw [htabulated, hspaced]
  exact id

end Lisplet.Reader

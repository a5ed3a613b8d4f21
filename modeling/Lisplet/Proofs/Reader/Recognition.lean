import Lisplet.Proofs.Reader.Grammar

/-! Whatever is read is allowed by the grammar, so reading decides it. -/

namespace Lisplet.Reader

open State

variable {options : Options} {s : State}

def Opens (options : Options) (text : List Char) : Prop :=
  ∃ cs x rest, text = cs ++ rest ∧ cs ≠ [] ∧ Spells options cs x rest ∧ x ≠ .gap

lemma exists_gaps (options : Options) (text : List Char) :
    ∃ gaps rest, text = gaps ++ rest ∧ Gaps options gaps rest ∧
      (rest = [] ∨ Opens options rest ∨ Halts options rest) := by
  induction h : text.length using Nat.strongRecOn generalizing text with
  | ind n ih =>
    match text with
    | [] => exact ⟨[], [], rfl, .nil, .inl rfl⟩
    | c :: text =>
      have hstart : Begins options (c :: text) ∨ Halts options (c :: text) := begins_or_halts c text
      rcases hstart with hb | hh
      · obtain ⟨cs, x, rest, he, hne, hx⟩ := hb
        by_cases hg : x = .gap
        · subst hg
          have hlt : rest.length < n := by
            have := List.length_pos_iff.2 hne
            simp [← h, he]
            omega
          obtain ⟨gaps, rest, rfl, hgaps, hr⟩ := ih _ hlt rest rfl
          exact ⟨cs ++ gaps, rest, by rw [he, List.append_assoc], .cons hx hgaps, hr⟩
        · exact ⟨[], c :: text, rfl, .nil, .inr (.inl ⟨cs, x, rest, he, hne, hx, hg⟩)⟩
      · exact ⟨[], c :: text, rfl, .nil, .inr (.inr hh)⟩

lemma not_halts {text : List Char} {fs : List (Nat × Value)} (hs : s.mode = .between)
    (h : run options s text = .ok fs) : ¬ Halts options text := by
  rintro ⟨before, after, kind, rfl, hh⟩
  rw [run_stuck hs hh] at h
  cases h

lemma exists_gaps_of_run {text : List Char} {fs : List (Nat × Value)} (hs : s.mode = .between)
    (h : run options s text = .ok fs) :
    ∃ gaps rest, text = gaps ++ rest ∧ Gaps options gaps rest ∧
      run options (s.skip gaps) rest = .ok fs ∧ (rest = [] ∨ Opens options rest) := by
  obtain ⟨gaps, rest, rfl, hg, hr⟩ := exists_gaps options text
  rw [run_gaps hs hg] at h
  rcases hr with rfl | ho | hh
  · exact ⟨gaps, [], rfl, hg, h, .inl rfl⟩
  · exact ⟨gaps, rest, rfl, hg, h, .inr ho⟩
  · exact absurd hh (not_halts (between_skip hs gaps) h)

lemma levels_of_run_nil {fs : List (Nat × Value)} (hs : s.mode = .between)
    (h : run options s [] = .ok fs) : s.levels = [] := by
  rw [run_nil, finish_between hs] at h
  by_contra hl
  rw [if_neg hl] at h
  cases h

lemma levels_of_run_closer {b : Bracket} {rest : List Char} {fs : List (Nat × Value)}
    (hs : s.mode = .between) (h : run options s (b.closer :: rest) = .ok fs) :
    ∃ items levels, s.levels = .list b items :: levels := by
  rw [run_char hs (.closer b)] at h
  obtain ⟨t, ht, _⟩ := bind_eq_ok h
  obtain ⟨items, levels, hl, _⟩ := close_eq_ok ht
  exact ⟨items, levels, hl⟩

def IsForm (options : Options) (text : List Char) : Prop :=
  ∃ cs v rest, text = cs ++ rest ∧ Form options cs v rest

def IsItems (options : Options) (b : Bracket) (text : List Char) : Prop :=
  ∃ cs vs rest, text = cs ++ rest ∧ Items options b cs vs rest

lemma Form.ne_nil {cs rest : List Char} {v : Value} (h : Form options cs v rest) : cs ≠ [] := by
  cases h with
  | atom h => cases h with
    | string _ => simp
    | token hne _ _ _ => exact hne
  | list _ => simp
  | quote _ _ => simp

def IsCloser (text : List Char) : Prop :=
  ∃ (b : Bracket) (rest : List Char), text = b.closer :: rest

def Sound (options : Options) (n : ℕ) : Prop :=
  ∀ (s : State) (text : List Char) (fs : List (Nat × Value)), text.length = n →
    s.mode = .between → run options s text = .ok fs →
      (Opens options text → IsForm options text ∨ IsCloser text) ∧
      ∀ b items levels, s.levels = .list b items :: levels → IsItems options b text

lemma isForm_list {b : Bracket} {rest : List Char} {fs : List (Nat × Value)}
    (ih : Sound options rest.length) (hs : s.mode = .between)
    (h : run options s (b.opener :: rest) = .ok fs) : IsForm options (b.opener :: rest) := by
  rw [run_char hs (.opener b)] at h
  obtain ⟨cs, vs, rest, rfl, hi⟩ :=
    (ih _ rest fs rfl (between_skip (between_enter _) _) h).2 b [] s.levels rfl
  exact ⟨b.opener :: cs, _, rest, rfl, .list hi⟩

lemma isForm_quote {rest : List Char} {fs : List (Nat × Value)}
    (ih : ∀ m ≤ rest.length, Sound options m) (hs : s.mode = .between)
    (h : run options s ('\x27' :: rest) = .ok fs) : IsForm options ('\x27' :: rest) := by
  rw [run_char hs .quote] at h
  have ht : ((s.enter .quote).skip ['\x27']).mode = .between := rfl
  obtain ⟨gaps, rest, rfl, hg, h, rfl | ho⟩ := exists_gaps_of_run ht h
  · cases levels_of_run_nil (between_skip ht gaps) h
  · rcases (ih rest.length (by simp) _ rest fs rfl (between_skip ht gaps) h).1 ho with hf | hc
    · obtain ⟨cs, v, rest, rfl, hf⟩ := hf
      exact ⟨_, _, rest, by simp, .quote hg hf⟩
    · obtain ⟨b, rest, rfl⟩ := hc
      obtain ⟨items, levels, hl⟩ := levels_of_run_closer (between_skip ht gaps) h
      cases hl

lemma isForm_of_opens {text : List Char} {fs : List (Nat × Value)}
    (ih : ∀ m < text.length, Sound options m) (hs : s.mode = .between)
    (h : run options s text = .ok fs) (ho : Opens options text) :
    IsForm options text ∨ IsCloser text := by
  obtain ⟨cs, x, rest, rfl, hne, hx, hg⟩ := ho
  cases hx with
  | space _ => exact absurd rfl hg
  | comment _ _ _ => exact absurd rfl hg
  | opener b => exact .inl (isForm_list (ih _ (by simp)) hs h)
  | closer b => exact .inr ⟨b, rest, rfl⟩
  | quote => exact .inl (isForm_quote (fun m hm => ih m (by simpa using Nat.lt_succ_of_le hm)) hs h)
  | string hl => exact .inl ⟨_, _, rest, rfl, .atom (.string hl)⟩
  | token hne ht hr hv => exact .inl ⟨_, _, rest, rfl, .atom (.token hne ht hr hv)⟩

lemma isItems_of_levels {text : List Char} {fs : List (Nat × Value)} {b : Bracket}
    {items : List Value} {levels : List Level} (ih : ∀ m < text.length, Sound options m)
    (hs : s.mode = .between) (hl : s.levels = .list b items :: levels)
    (h : run options s text = .ok fs) : IsItems options b text := by
  obtain ⟨gaps, rest, rfl, hg, h, rfl | ho⟩ := exists_gaps_of_run hs h
  · rw [← skip_levels gaps, levels_of_run_nil (between_skip hs gaps) h] at hl
    cases hl
  have hlt {m : ℕ} (hm : m < rest.length) : m < (gaps ++ rest).length := by
    rw [List.length_append]
    omega
  rcases isForm_of_opens (fun m hm => ih m (hlt hm)) (between_skip hs gaps) h ho with hf | hc
  · obtain ⟨cs, v, rest, rfl, hf⟩ := hf
    rw [run_form hf _ (between_skip hs gaps), begin_of_levels (by simp [hl]),
      deliver_list (s := s.skip gaps) hl] at h
    have hpos := List.length_pos_iff.2 hf.ne_nil
    obtain ⟨more, vs, rest, rfl, hi⟩ :=
      (ih rest.length (hlt (by simpa using hpos)) _ rest fs rfl rfl h).2 b (v :: items) levels rfl
    exact ⟨_, _, rest, by simp, .cons hg hf hi⟩
  · obtain ⟨c, rest, rfl⟩ := hc
    obtain ⟨items, levels, hc⟩ := levels_of_run_closer (between_skip hs gaps) h
    rw [skip_levels, hl] at hc
    cases hc
    exact ⟨_, _, rest, by simp, .nil hg⟩

lemma sound (n : ℕ) : Sound options n := by
  induction n using Nat.strongRecOn with
  | ind n ih =>
    intro s text fs hn hs h
    subst hn
    exact ⟨isForm_of_opens ih hs h, fun b items levels hl => isItems_of_levels ih hs hl h⟩

theorem exists_forms {text : List Char} {fs : List (Nat × Value)} (hs : s.mode = .between)
    (hl : s.levels = []) (h : run options s text = .ok fs) :
    ∃ gs, Forms options s.position text gs := by
  induction hn : text.length using Nat.strongRecOn generalizing s text with
  | ind n ih =>
    obtain ⟨gaps, rest, rfl, hg, h, rfl | ho⟩ := exists_gaps_of_run hs h
    · exact ⟨[], by simpa using .nil hg⟩
    rcases (sound rest.length _ rest fs rfl (between_skip hs gaps) h).1 ho with hf | hc
    · obtain ⟨cs, v, rest, rfl, hf⟩ := hf
      have ht : (s.skip gaps).levels = [] := hl
      rw [run_form hf _ (between_skip hs gaps), deliver_top ht] at h
      have hpos := List.length_pos_iff.2 hf.ne_nil
      have hlt : rest.length < n := by
        simp [← hn]
        omega
      obtain ⟨gs, hgs⟩ := ih _ hlt (by rfl) (by exact hl) h rfl
      exact ⟨_, .cons hg hf hgs⟩
    · obtain ⟨b, rest, rfl⟩ := hc
      obtain ⟨items, levels, hc⟩ := levels_of_run_closer (between_skip hs gaps) h
      rw [skip_levels, hl] at hc
      cases hc

theorem forms_eq_ok_iff {text : List Char} {fs : List (Nat × Value)} :
    forms options text = .ok fs ↔ Forms options 0 text fs := by
  have hrun : forms options text = run options initial text := rfl
  rw [hrun]
  constructor
  · intro h
    obtain ⟨gs, hgs⟩ := exists_forms rfl rfl h
    rw [run_forms rfl rfl rfl hgs] at h
    cases h
    exact hgs
  · exact run_forms rfl rfl rfl

lemma readForms_eq_ok {label : Option String} {source : String} {fs : List (ℕ × Value)} :
    readForms options label source = .ok fs ↔ forms options source.toList = .ok fs := by
  rw [readForms]
  cases forms options source.toList with
  | ok gs => simp [Except.mapError]
  | error stop => exact ⟨nofun, nofun⟩

theorem readForms_eq_ok_iff (options : Options) (label : Option String) (source : String)
    (fs : List (ℕ × Value)) :
    (readForms options label source = .ok fs ↔ Forms options 0 source.toList fs) ∧
      ∀ gs, Forms options 0 source.toList fs → Forms options 0 source.toList gs → fs = gs := by
  refine ⟨readForms_eq_ok.trans forms_eq_ok_iff, fun gs hfs hgs => ?_⟩
  rw [← forms_eq_ok_iff] at hfs hgs
  exact Except.ok.inj (hfs.symm.trans hgs)

end Lisplet.Reader

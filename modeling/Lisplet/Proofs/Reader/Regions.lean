import Lisplet.Proofs.Reader.Reading

/-! The regions of a source text: code, comments and strings. They can be told apart without reading
any form, and a reader is always in the region where the text is. -/

namespace Lisplet.Reader

open State

/-- What the last character of a text belongs to; the character behind a backslash is still to come
in an escape. -/
inductive Region where
  | code | comment | string | escape
deriving DecidableEq

def Region.next : Region → Char → Region
  | .code, c => if c = ';' then .comment else if c = '"' then .string else .code
  | .comment, c => if c = '\n' then .code else .comment
  | .string, c => if c = '"' then .code else if c = '\\' then .escape else .string
  | .escape, _ => .string

def Mode.region : Mode → Region
  | .between => .code
  | .comment => .comment
  | .token _ _ => .code
  | .string _ => .string
  | .escape _ => .escape

variable {options : Options} {s t : State} {c : Char}

lemma region_space (hc : c ∈ spaces) : Region.code.next c = .code := by
  simp only [spaces, List.mem_cons, List.not_mem_nil, or_false] at hc
  rcases hc with rfl | rfl | rfl | rfl <;> rfl

lemma region_token (hc : isTokenChar c = true) : Region.code.next c = .code := by
  obtain ⟨-, hd⟩ := isTokenChar_iff.1 hc
  simp only [delimiters, List.mem_cons, List.not_mem_nil, or_false, not_or] at hd
  rw [Region.next, if_neg (by tauto), if_neg (by tauto)]

lemma next_eq_comment {region : Region} : region.next c = .comment ↔
    region = .code ∧ c = ';' ∨ region = .comment ∧ c ≠ '\n' := by
  cases region with
  | code =>
    by_cases hc : c = ';'
    · simp [Region.next, hc]
    · by_cases hq : c = '"' <;> simp [Region.next, hc, hq]
  | comment => by_cases hc : c = '\n' <;> simp [Region.next, hc]
  | string => by_cases hq : c = '"' <;> by_cases hb : c = '\\' <;> simp [Region.next, hq, hb]
  | escape => simp [Region.next]

/-! Reading in code. -/

lemma mode_of_code (hs : s.mode.region = .code) :
    s.mode = .between ∨ ∃ start chars, s.mode = .token start chars := by
  cases hm : s.mode with
  | between => exact .inl rfl
  | token start chars => exact .inr ⟨start, chars, rfl⟩
  | _ =>
    rw [hm] at hs
    cases hs

lemma settle_mode (hs : s.mode.region = .code) (h : s.settle = .ok t) : t.mode = .between := by
  obtain hm | ⟨start, chars, hm⟩ := mode_of_code hs
  · rw [settle_between hm] at h
    cases h
    exact hm
  · exact settle_token_mode hm h

lemma settle_of_region (h : s.mode.region ≠ .code) : s.settle = .ok s := by
  rw [settle]
  split
  · next hs =>
    rw [hs] at h
    exact absurd rfl h
  · rfl

lemma read_code (hs : s.mode.region = .code) (hc : isTokenChar c = false) :
    s.read options c = s.settle.bind (·.dispatch options c) := by
  obtain hm | ⟨start, chars, hm⟩ := mode_of_code hs
  · rw [read_between hm, settle_between hm]
    rfl
  · rw [State.read, hm]
    simp only [hc, Bool.false_eq_true, if_false]

lemma region_dispatch (hs : s.mode = .between) (h : s.dispatch options c = .ok t) :
    t.mode.region = Region.code.next c := by
  rcases char_cases c with hc | rfl | rfl | rfl | ⟨b, rfl⟩ | ⟨b, rfl⟩ | hc | hc
  · rw [dispatch_space hc] at h
    cases h
    rw [region_space hc, hs]
    rfl
  · rw [dispatch_semicolon] at h
    split at h <;> cases h
    rfl
  · cases h
    rfl
  · cases h
    rfl
  · rw [dispatch_opener] at h
    cases h
    cases b <;> rfl
  · rw [dispatch_closer] at h
    obtain ⟨items, levels, -, rfl⟩ := close_eq_ok h
    cases b <;> rfl
  · rw [dispatch_stray (.inr hc)] at h
    cases h
  · rw [dispatch_token hc] at h
    cases h
    exact (region_token hc).symm

theorem region_read (h : s.read options c = .ok t) : t.mode.region = s.mode.region.next c := by
  cases hs : s.mode with
  | between =>
    rw [read_between hs] at h
    exact region_dispatch hs h
  | comment =>
    simp only [State.read, hs] at h
    cases h
    by_cases hc : c = '\n' <;> simp [hc, hs, Mode.region, Region.next]
  | token start chars =>
    have hcode : s.mode.region = .code := congrArg Mode.region hs
    cases hc : isTokenChar c with
    | true =>
      simp only [State.read, hs, hc, if_true] at h
      cases h
      exact (region_token hc).symm
    | false =>
      rw [read_code hcode hc] at h
      obtain ⟨u, hu, h⟩ := bind_eq_ok h
      exact region_dispatch (settle_mode hcode hu) h
  | string chars =>
    simp only [State.read, hs] at h
    by_cases hq : c = '"'
    · rw [if_pos hq] at h
      cases h
      simp [hq, Mode.region, Region.next, deliver]
    · rw [if_neg hq] at h
      by_cases hb : c = '\\'
      · rw [if_pos hb] at h
        cases h
        simp [hb, Mode.region, Region.next]
      · rw [if_neg hb] at h
        cases h
        simp [hq, hb, Mode.region, Region.next]
  | escape chars =>
    simp only [State.read, hs] at h
    split at h <;> cases h
    rfl

end Lisplet.Reader

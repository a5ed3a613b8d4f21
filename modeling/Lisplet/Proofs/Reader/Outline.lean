import Lisplet.Proofs.Reader.Families

/-! What shows of a text before any form of it is read: the region that it ends in, the brackets of
its code that are open behind it, and whether a quote mark still waits for its form. A reader that
has come through the text is in the same situation. -/

namespace Lisplet.Reader

open State

structure Outline where
  region : Region
  opened : List Bracket
  quoting : Bool
deriving DecidableEq

def nest (opened : List Bracket) (c : Char) : List Bracket :=
  match Bracket.ofOpener? c, Bracket.ofCloser? c with
  | some bracket, _ => bracket :: opened
  | none, some _ => opened.tail
  | none, none => opened

def Outline.next (o : Outline) (c : Char) : Outline where
  region := o.region.next c
  opened := if o.region = .code then nest o.opened c else o.opened
  quoting :=
    -- only spaces and comments stand between a quote mark and its form
    if o.region = .code then c = '\x27' || (o.quoting && (Text.isSpace c || c = ';'))
    else o.quoting

def outline (text : List Char) : Outline :=
  text.foldl Outline.next ⟨.code, [], false⟩

def State.Quoting (s : State) : Prop :=
  (s.mode = .between ∨ s.mode = .comment) ∧ ∃ levels, s.levels = .quote :: levels

structure Outlined (o : Outline) (s : State) : Prop where
  region : s.mode.region = o.region
  opened : s.families = o.opened
  quoting : s.Quoting ↔ o.quoting = true

variable {options : Options} {s t : State} {o : Outline} {b : Bracket} {c : Char}
variable {opened : List Bracket}

/-! Brackets. -/

lemma nest_opener : nest opened b.opener = b :: opened := by
  cases b <;> rfl

lemma nest_closer : nest opened b.closer = opened.tail := by
  cases b <;> rfl

lemma nest_plain (h : Plain c) : nest opened c = opened := by
  rw [nest, h.1, h.2]

lemma families_read_code (hs : s.mode.region = .code) (h : s.read options c = .ok t) :
    t.families = nest s.families c := by
  rcases bracket_cases c with ⟨b, rfl⟩ | ⟨b, rfl⟩ | hc
  · rw [nest_opener, families_read_opener hs h]
  · rw [nest_closer, families_read_closer hs h, List.tail_cons]
  · rw [nest_plain hc, families_read_plain (fun _ => hc) h]

/-! Quote marks. -/

lemma not_quoting_deliver (v : Value) : ¬ (s.deliver v).Quoting :=
  fun ⟨_, levels, hlevels⟩ => place_ne_quote _ _ _ levels v hlevels

lemma not_quoting_of_mode (h : s.mode ≠ .between) (h' : s.mode ≠ .comment) : ¬ s.Quoting :=
  fun ⟨hmode, _⟩ => hmode.elim h h'

lemma quoting_settle (hs : s.mode.region = .code) (h : s.settle = .ok t) :
    t.Quoting ↔ s.Quoting := by
  obtain hm | ⟨start, chars, hm⟩ := mode_of_code hs
  · rw [settle_between hm] at h
    cases h
    rfl
  · -- the token is the form that a quote mark in front of it has waited for
    have hquoting : ¬ s.Quoting := not_quoting_of_mode (by simp [hm]) (by simp [hm])
    rw [settle_token hm] at h
    split at h <;> cases h
    exact iff_of_false (not_quoting_deliver _) hquoting

lemma quoting_dispatch (hs : s.mode = .between) (h : s.dispatch options c = .ok t) :
    t.Quoting ↔ c = '\x27' ∨ s.Quoting ∧ (c ∈ spaces ∨ c = ';') := by
  rcases char_cases c with hc | rfl | rfl | rfl | ⟨b, rfl⟩ | ⟨b, rfl⟩ | hc | hc
  · rw [dispatch_space hc] at h
    cases h
    have hquote : c ≠ '\x27' := by
      rintro rfl
      simp [spaces] at hc
    simp [hquote, hc]
  · rw [dispatch_semicolon] at h
    split at h <;> cases h
    simp [Quoting, hs]
  · cases h
    exact iff_of_false (not_quoting_of_mode (by simp) (by simp)) (by simp [spaces])
  · cases h
    exact iff_of_true ⟨.inl rfl, s.levels, rfl⟩ (.inl rfl)
  · rw [dispatch_opener] at h
    cases h
    refine iff_of_false (by simp [Quoting, enter]) ?_
    cases b <;> simp [spaces, Bracket.opener]
  · rw [dispatch_closer] at h
    obtain ⟨items, levels, -, rfl⟩ := close_eq_ok h
    refine iff_of_false (not_quoting_deliver _) ?_
    cases b <;> simp [spaces, Bracket.closer]
  · rw [dispatch_stray (.inr hc)] at h
    cases h
  · rw [dispatch_token hc] at h
    cases h
    refine iff_of_false (not_quoting_of_mode (by simp) (by simp)) ?_
    rintro (rfl | ⟨-, hspace | rfl⟩)
    · cases hc
    · rw [isTokenChar_of_mem_spaces hspace] at hc
      cases hc
    · cases hc

lemma quoting_read_code (hs : s.mode.region = .code) (h : s.read options c = .ok t) :
    t.Quoting ↔ c = '\x27' ∨ s.Quoting ∧ (c ∈ spaces ∨ c = ';') := by
  obtain hm | ⟨start, chars, hm⟩ := mode_of_code hs
  · rw [read_between hm] at h
    exact quoting_dispatch hm h
  cases hc : isTokenChar c with
  | true =>
    simp only [State.read, hm, hc, if_true] at h
    cases h
    have hquoting : ¬ s.Quoting := not_quoting_of_mode (by simp [hm]) (by simp [hm])
    have hquote : c ≠ '\x27' := by
      rintro rfl
      cases hc
    exact iff_of_false (not_quoting_of_mode (by simp) (by simp)) (by simp [hquote, hquoting])
  | false =>
    rw [read_code hs hc] at h
    obtain ⟨u, hu, h⟩ := bind_eq_ok h
    rw [quoting_dispatch (settle_mode hs hu) h, quoting_settle hs hu]

lemma quoting_read_other (hs : s.mode.region ≠ .code) (h : s.read options c = .ok t) :
    t.Quoting ↔ s.Quoting := by
  cases hm : s.mode with
  | comment =>
    simp only [State.read, hm] at h
    cases h
    split <;> simp [Quoting, hm]
  | string chars =>
    have hquoting : ¬ s.Quoting := not_quoting_of_mode (by simp [hm]) (by simp [hm])
    simp only [State.read, hm] at h
    split at h
    · cases h
      exact iff_of_false (not_quoting_deliver _) hquoting
    · split at h <;> cases h <;> exact iff_of_false (not_quoting_of_mode (by simp) (by simp)) hquoting
  | escape chars =>
    have hquoting : ¬ s.Quoting := not_quoting_of_mode (by simp [hm]) (by simp [hm])
    simp only [State.read, hm] at h
    split at h <;> cases h
    exact iff_of_false (not_quoting_of_mode (by simp) (by simp)) hquoting
  | _ =>
    rw [hm] at hs
    exact absurd rfl hs

/-! The reader and the outline. -/

lemma next_code (ho : o.region = .code) : (o.next c).opened = nest o.opened c ∧
    ((o.next c).quoting = true ↔
      c = '\x27' ∨ o.quoting = true ∧ (c ∈ spaces ∨ c = ';')) := by
  simp [Outline.next, ho, ← isSpace_iff]

lemma next_other (ho : o.region ≠ .code) :
    (o.next c).opened = o.opened ∧ (o.next c).quoting = o.quoting := by
  simp [Outline.next, ho]

lemma outlined_initial : Outlined (outline []) initial :=
  ⟨rfl, rfl, by simp [Quoting, initial, outline]⟩

lemma Outlined.skip (h : Outlined o s) (cs : List Char) : Outlined o (s.skip cs) :=
  ⟨h.region, h.opened, h.quoting⟩

lemma Outlined.settle (h : Outlined o s) (hs : s.mode.region = .code) (ht : s.settle = .ok t) :
    Outlined o t where
  region := by rw [settle_mode hs ht, ← h.region, hs]; rfl
  opened := by rw [families_settle ht, h.opened]
  quoting := by rw [quoting_settle hs ht, h.quoting]

theorem Outlined.read (h : Outlined o s) (ht : s.read options c = .ok t) :
    Outlined (o.next c) t := by
  have hregion : t.mode.region = (o.next c).region := by
    rw [region_read ht, h.region, Outline.next]
  by_cases ho : o.region = .code
  · have hs : s.mode.region = .code := h.region.trans ho
    obtain ⟨hopened, hquoting⟩ := next_code (c := c) ho
    refine ⟨hregion, ?_, ?_⟩
    · rw [families_read_code hs ht, h.opened, hopened]
    · rw [quoting_read_code hs ht, h.quoting, hquoting]
  · have hs : s.mode.region ≠ .code := h.region.trans_ne ho
    obtain ⟨hopened, hquoting⟩ := next_other (c := c) ho
    refine ⟨hregion, ?_, ?_⟩
    · rw [families_read_plain (fun hcode => absurd hcode hs) ht, h.opened, hopened]
    · rw [quoting_read_other hs ht, h.quoting, hquoting]

theorem Outlined.feedAll {text : List Char} (h : Outlined o s)
    (ht : feedAll options s text = .ok t) : Outlined (text.foldl Outline.next o) t := by
  induction text generalizing s o with
  | nil =>
    cases ht
    exact h
  | cons c cs ih =>
    rw [feedAll_cons] at ht
    obtain ⟨u, hu, ht⟩ := bind_eq_ok ht
    exact ih ((h.read hu).skip [c]) ht

end Lisplet.Reader

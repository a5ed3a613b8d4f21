import Lisplet.Proofs.Reader.Faults
import Lisplet.Proofs.Reader.Regions

/-! Reading a text that stands behind another one. A reader does the same wherever a text begins,
and a text that is read leaves nothing open for the next line. -/

namespace Lisplet.Reader

open State

def Mode.shift (d : ℕ) : Mode → Mode
  | .token start chars => .token (start + d) chars
  | mode => mode

def shiftEntry (d : ℕ) (entry : ℕ × Value) : ℕ × Value :=
  (entry.1 + d, entry.2)

def State.shift (d : ℕ) (before : List (ℕ × Value)) (s : State) : State where
  position := s.position + d
  mode := s.mode.shift d
  levels := s.levels
  start := s.start + d
  forms := s.forms.map (shiftEntry d) ++ before

def shiftOutcome {α β : Type} (d : ℕ) (f : α → β) : Except Stop α → Except Stop β
  | .ok a => .ok (f a)
  | .error stop => .error ⟨stop.kind, stop.offset + d⟩

variable {options : Options} {s t : State} {d : ℕ} {before : List (ℕ × Value)}

lemma bind_shiftOutcome {α β α' β' : Type} {x : Except Stop α} {f : α → Except Stop β}
    {g : α' → Except Stop β'} {k : α → α'} {m : β → β'}
    (h : ∀ a, x = .ok a → g (k a) = shiftOutcome d m (f a)) :
    (shiftOutcome d k x).bind g = shiftOutcome d m (x.bind f) := by
  cases x with
  | error stop => rfl
  | ok a => exact h a rfl

lemma place_shift (start : ℕ) (fs : List (ℕ × Value)) (levels : List Level) (v : Value) :
    place (start + d) (fs.map (shiftEntry d) ++ before) levels v =
      ((place start fs levels v).1, (place start fs levels v).2.map (shiftEntry d) ++ before) := by
  induction levels generalizing v with
  | nil => rfl
  | cons level levels ih =>
    cases level with
    | list bracket items => rfl
    | quote => exact ih v.quoted

lemma deliver_shift (v : Value) :
    (s.shift d before).deliver v = (s.deliver v).shift d before := by
  rw [deliver, State.shift]
  simp only [place_shift]
  rfl

lemma begin_shift : (s.shift d before).begin = s.begin.shift d before := by
  rw [begin, begin, State.shift, State.shift]
  split <;> rfl

lemma enter_shift (level : Level) :
    (s.shift d before).enter level = (s.enter level).shift d before := by
  rw [enter, begin_shift]
  rfl

lemma close_shift (bracket : Bracket) :
    (s.shift d before).close bracket = shiftOutcome d (State.shift d before) (s.close bracket) := by
  have hlevels : (s.shift d before).levels = s.levels := rfl
  rw [close, close, hlevels]
  split
  · next opener items levels _ =>
    split
    · exact congrArg Except.ok (deliver_shift (s := { s with levels := levels }) _)
    · rfl
  · rfl

lemma dispatch_shift (c : Char) : (s.shift d before).dispatch options c =
    shiftOutcome d (State.shift d before) (s.dispatch options c) := by
  rcases char_cases c with hc | rfl | rfl | rfl | ⟨b, rfl⟩ | ⟨b, rfl⟩ | hc | hc
  · rw [dispatch_space hc, dispatch_space hc]
    rfl
  · rw [dispatch_semicolon, dispatch_semicolon]
    split <;> rfl
  · rw [dispatch_string, dispatch_string, begin_shift]
    rfl
  · rw [dispatch_quote, dispatch_quote, enter_shift]
    rfl
  · rw [dispatch_opener, dispatch_opener, enter_shift]
    rfl
  · rw [dispatch_closer, dispatch_closer, close_shift]
  · rw [dispatch_stray (.inr hc), dispatch_stray (.inr hc)]
    rfl
  · rw [dispatch_token hc, dispatch_token hc, begin_shift]
    rfl

lemma shift_mode : (s.shift d before).mode = s.mode.shift d := rfl

lemma settle_shift :
    (s.shift d before).settle = shiftOutcome d (State.shift d before) s.settle := by
  rw [settle.eq_def, settle.eq_def, shift_mode]
  cases hs : s.mode with
  | token start chars =>
    simp only [Mode.shift]
    cases atom? chars.reverse with
    | none => rfl
    | some v => exact congrArg Except.ok (deliver_shift v)
  | _ => rfl

theorem read_shift (hs : s.mode.region = .escape → 0 < s.position) (c : Char) :
    (s.shift d before).read options c =
      shiftOutcome d (State.shift d before) (s.read options c) := by
  rw [State.read.eq_def, State.read.eq_def, shift_mode]
  cases hm : s.mode with
  | between => exact dispatch_shift c
  | comment =>
    simp only [Mode.shift]
    split
    · rfl
    · rfl
  | token start chars =>
    simp only [Mode.shift]
    split
    · rfl
    · rw [settle_shift]
      exact bind_shiftOutcome fun t _ => dispatch_shift c
  | string chars =>
    simp only [Mode.shift]
    split
    · exact congrArg Except.ok (deliver_shift _)
    · split
      · rfl
      · rfl
  | escape chars =>
    simp only [Mode.shift]
    -- the backslash is blamed, so there has to be a character before this one
    have hpos : s.position + d - 1 = s.position - 1 + d := by
      rw [hm] at hs
      exact Nat.sub_add_comm (hs rfl)
    cases Text.unescape? c with
    | none =>
      rw [State.shift, hpos]
      rfl
    | some e => rfl

lemma finish_shift : (s.shift d before).finish =
    shiftOutcome d (fun fs => before.reverse ++ fs.map (shiftEntry d)) s.finish := by
  rw [finish, finish, settle_shift]
  refine bind_shiftOutcome fun t _ => ?_
  have hstring : (t.shift d before).inString = t.inString := by
    rw [inString.eq_def, inString.eq_def, shift_mode]
    cases t.mode <;> rfl
  have hlevels : (t.shift d before).levels = t.levels := rfl
  rw [hstring, hlevels]
  split
  · rfl
  · simp [shiftOutcome, State.shift]

theorem run_shift (hs : s.mode.region = .escape → 0 < s.position) (text : List Char) :
    run options (s.shift d before) text =
      shiftOutcome d (fun fs => before.reverse ++ fs.map (shiftEntry d)) (run options s text) := by
  induction text generalizing s with
  | nil => exact finish_shift
  | cons c cs ih =>
    rw [run_cons, run_cons, read_shift hs]
    refine bind_shiftOutcome fun t ht => ?_
    have hpos : 0 < (t.skip [c]).position := by
      rw [skip_position]
      exact Nat.add_pos_right _ (size_pos (List.cons_ne_nil c []))
    have hskip : (t.shift d before).skip [c] = (t.skip [c]).shift d before := by
      simp [skip, State.shift, Nat.add_right_comm]
    rw [hskip]
    exact ih fun _ => hpos

/-! Texts one after another. -/

def State.Idle (s : State) : Prop :=
  (s.mode = .between ∨ s.mode = .comment) ∧ s.levels = []

lemma read_start (hs : s.Idle) (k : ℕ) (c : Char) :
    ({ s with start := k } : State).read options c = s.read options c ∨
      ∃ t, s.read options c = .ok t ∧ t.Idle ∧
        ({ s with start := k } : State).read options c = .ok { t with start := k } := by
  obtain ⟨position, mode, levels, start, forms⟩ := s
  obtain ⟨rfl | rfl, rfl⟩ := hs
  · rw [read_between rfl, read_between rfl]
    rcases char_cases c with hc | rfl | rfl | rfl | ⟨b, rfl⟩ | ⟨b, rfl⟩ | hc | hc
    · rw [dispatch_space hc, dispatch_space hc]
      exact .inr ⟨_, rfl, ⟨.inl rfl, rfl⟩, rfl⟩
    · rw [dispatch_semicolon, dispatch_semicolon]
      split
      · exact .inr ⟨_, rfl, ⟨.inr rfl, rfl⟩, rfl⟩
      · exact .inl rfl
    · exact .inl rfl
    · exact .inl rfl
    · rw [dispatch_opener, dispatch_opener]
      exact .inl rfl
    · rw [dispatch_closer, dispatch_closer]
      exact .inl rfl
    · rw [dispatch_stray (.inr hc), dispatch_stray (.inr hc)]
      exact .inl rfl
    · rw [dispatch_token hc, dispatch_token hc]
      exact .inl rfl
  · refine .inr ⟨_, rfl, ?_, ?_⟩
    · by_cases hc : c = '\n'
      · rw [if_pos hc]
        exact ⟨.inl rfl, rfl⟩
      · rw [if_neg hc]
        exact ⟨.inr rfl, rfl⟩
    · by_cases hc : c = '\n'
      · simp [State.read, hc]
      · simp [State.read, hc]

lemma run_start (hs : s.Idle) (k : ℕ) (text : List Char) :
    run options { s with start := k } text = run options s text := by
  induction text generalizing s with
  | nil =>
    obtain ⟨position, mode, levels, start, forms⟩ := s
    obtain ⟨rfl | rfl, rfl⟩ := hs <;> rfl
  | cons c cs ih =>
    rw [run_cons, run_cons]
    rcases read_start hs k c with h | ⟨t, ht, hidle, h⟩
    · rw [h]
    · rw [ht, h]
      exact ih (s := t.skip [c]) hidle

lemma finish_eq_ok {fs : List (ℕ × Value)} (h : s.finish = .ok fs) :
    ∃ t, s.settle = .ok t ∧ t.inString = false ∧ t.levels = [] ∧ t.forms = fs.reverse := by
  obtain ⟨t, ht, h⟩ := bind_eq_ok h
  split at h
  · cases h
  · next hopen =>
    cases h
    rw [List.reverse_reverse]
    simp only [Bool.or_eq_true, Bool.not_eq_true', not_or, Bool.not_eq_true,
      Bool.not_eq_false, List.isEmpty_iff] at hopen
    exact ⟨t, ht, hopen.1, hopen.2, rfl⟩

lemma run_newline {fs : List (ℕ × Value)} (h : s.finish = .ok fs) (text : List Char) :
    ∃ start, run options s ('\n' :: text) =
      run options ⟨s.position + 1, .between, [], start, fs.reverse⟩ text := by
  obtain ⟨t, ht, hstring, hlevels, hforms⟩ := finish_eq_ok h
  have hread : s.read options '\n' = .ok { t with mode := .between } := by
    cases hs : s.mode.region with
    | code =>
      have hspace : '\n' ∈ spaces := by simp [spaces]
      rw [read_code hs rfl, ht, Except.bind, dispatch_space hspace, ← settle_mode hs ht]
    | comment =>
      rw [settle_of_region (by simp [hs])] at ht
      cases ht
      obtain ⟨position, _ | _ | _ | _ | _, levels, start, forms⟩ := s <;> cases hs
      rfl
    | _ =>
      rw [settle_of_region (by simp [hs])] at ht
      cases ht
      obtain ⟨position, _ | _ | _ | _ | _, levels, start, forms⟩ := s <;> cases hs
      cases hstring
  refine ⟨t.start, ?_⟩
  rw [run_cons, hread, Except.bind, skip, ← settle_position ht, ← hforms, ← hlevels]
  rfl

theorem run_append_newline {fs : List (ℕ × Value)} {first : List Char}
    (h : run options s first = .ok fs) (text : List Char) :
    ∃ start, run options s (first ++ '\n' :: text) =
      run options ⟨s.position + size first + 1, .between, [], start, fs.reverse⟩ text := by
  obtain ⟨t, ht, hfinish⟩ := bind_eq_ok h
  obtain ⟨start, hstart⟩ := run_newline hfinish text
  refine ⟨start, ?_⟩
  rw [run_append, ht, Except.bind, hstart, feedAll_position ht]

theorem forms_append_newline {fs : List (ℕ × Value)} {first : List Char}
    (h : forms options first = .ok fs) (second : List Char) :
    forms options (first ++ '\n' :: second) =
      shiftOutcome (size first + 1) (fun gs => fs ++ gs.map (shiftEntry (size first + 1)))
        (forms options second) := by
  obtain ⟨start, hrun⟩ := run_append_newline (s := initial) h second
  have hidle : (initial.shift (size first + 1) fs.reverse).Idle := ⟨.inl rfl, rfl⟩
  have hstate : ({ initial.shift (size first + 1) fs.reverse with start := start } : State) =
      ⟨initial.position + size first + 1, .between, [], start, fs.reverse⟩ := by
    simp [State.shift, initial, Mode.shift]
  calc
    _ = run options ⟨initial.position + size first + 1, .between, [], start, fs.reverse⟩ second :=
      hrun
    _ = run options (initial.shift (size first + 1) fs.reverse) second := by
      rw [← hstate, run_start hidle]
    _ = _ := by
      have hcode : initial.mode.region = .escape → 0 < initial.position := by
        intro h
        cases h
      rw [run_shift hcode, List.reverse_reverse]
      rfl

lemma readForms_append_newline {label : Option String} {first : String}
    {fs : List (ℕ × Value)} (h : readForms options label first = .ok fs) (second : String) :
    (∀ gs, readForms options label second = .ok gs →
      readForms options label (first ++ "\n" ++ second) =
        .ok (fs ++ gs.map (shiftEntry (first.utf8ByteSize + 1)))) ∧
    ∀ fault, readForms options label second = .error fault →
      readForms options label (first ++ "\n" ++ second) =
        .error ⟨fault.kind, first ++ "\n" ++ second, fault.offset + (first.utf8ByteSize + 1),
          label⟩ := by
  have htext : (first ++ "\n" ++ second).toList = first.toList ++ '\n' :: second.toList := by
    simp
  have hforms := forms_append_newline (readForms_eq_ok.1 h) second.toList
  rw [← htext, size_toList] at hforms
  constructor
  · intro gs hgs
    rw [readForms_eq_ok] at hgs ⊢
    rw [hforms, hgs]
    rfl
  · intro fault hfault
    obtain ⟨stop, hstop, rfl⟩ := readForms_eq_error.1 hfault
    refine readForms_eq_error.2 ⟨⟨stop.kind, stop.offset + (first.utf8ByteSize + 1)⟩, ?_, rfl⟩
    change forms options _ = _ at hstop ⊢
    rw [hforms, hstop]
    rfl

end Lisplet.Reader

import Lisplet.Proofs.Reader.Faults
import Lisplet.Proofs.Reader.Regions

/-! The families of brackets. A text is read no differently if all its brackets are made round, or
if other families are chosen for any of its pairs. -/

namespace Lisplet.Reader

open State

def uniformChar (c : Char) : Char :=
  match Bracket.ofOpener? c, Bracket.ofCloser? c with
  | some _, _ => Bracket.round.opener
  | none, some _ => Bracket.round.closer
  | none, none => c

def uniformFrom : Region → List Char → List Char
  | _, [] => []
  | region, c :: cs =>
    (if region = .code then uniformChar c else c) :: uniformFrom (region.next c) cs

def uniform (source : String) : String :=
  String.ofList (uniformFrom .code source.toList)

def turn (fresh : Bracket) (opened : List Bracket) (c : Char) : Char × List Bracket :=
  match Bracket.ofOpener? c, Bracket.ofCloser? c, opened with
  | some _, _, _ => (fresh.opener, fresh :: opened)
  | none, some _, bracket :: outer => (bracket.closer, outer)
  | none, _, _ => (c, opened)

/-- A text from its `n`th character on, with the family `choice k` for the pair that opens with the
`k`th character. -/
def rebracketFrom (choice : ℕ → Bracket) : Region → List Bracket → ℕ → List Char → List Char
  | _, _, _, [] => []
  | region, opened, n, c :: cs =>
    let turned := if region = .code then turn (choice n) opened c else (c, opened)
    turned.1 :: rebracketFrom choice (region.next c) turned.2 (n + 1) cs

def rebracketed (choice : ℕ → Bracket) (source : String) : String :=
  String.ofList (rebracketFrom choice .code [] 0 source.toList)

def Level.family? : Level → Option Bracket
  | .list bracket _ => some bracket
  | .quote => none

def Level.uniform : Level → Level
  | .list _ items => .list .round items
  | .quote => .quote

namespace State

def families (s : State) : List Bracket :=
  s.levels.filterMap Level.family?

def uniform (s : State) : State :=
  { s with levels := s.levels.map Level.uniform }

end State

/-! Characters. -/

def Plain (c : Char) : Prop :=
  Bracket.ofOpener? c = none ∧ Bracket.ofCloser? c = none

variable {options : Options} {s t : State} {b : Bracket} {c : Char} {opened : List Bracket}

lemma bracket_cases (c : Char) : (∃ b : Bracket, c = b.opener) ∨ (∃ b : Bracket, c = b.closer) ∨
    Plain c := by
  cases ho : Bracket.ofOpener? c with
  | some b => exact .inl ⟨b, ofOpener?_eq_some ho⟩
  | none =>
    cases hc : Bracket.ofCloser? c with
    | some b => exact .inr (.inl ⟨b, ofCloser?_eq_some hc⟩)
    | none => exact .inr (.inr ⟨ho, hc⟩)

lemma not_plain_opener : ¬ Plain b.opener := by
  cases b <;> exact fun h => nomatch h.1

lemma not_plain_closer : ¬ Plain b.closer := by
  cases b <;> exact fun h => nomatch h.2

lemma uniformChar_opener : uniformChar b.opener = Bracket.round.opener := by
  cases b <;> rfl

lemma uniformChar_closer : uniformChar b.closer = Bracket.round.closer := by
  cases b <;> rfl

lemma uniformChar_plain (h : Plain c) : uniformChar c = c := by
  rw [uniformChar, h.1, h.2]

lemma turn_opener (fresh : Bracket) :
    turn fresh opened b.opener = (fresh.opener, fresh :: opened) := by
  cases b <;> rfl

lemma turn_closer (fresh bracket : Bracket) :
    turn fresh (bracket :: opened) b.closer = (bracket.closer, opened) := by
  cases b <;> rfl

lemma turn_plain (h : Plain c) (fresh : Bracket) : turn fresh opened c = (c, opened) := by
  rw [turn.eq_def, h.1, h.2]

lemma isTokenChar_opener : isTokenChar b.opener = false := by
  cases b <;> decide

lemma isTokenChar_closer : isTokenChar b.closer = false := by
  cases b <;> decide

lemma next_opener : Region.code.next b.opener = .code := by
  cases b <;> rfl

lemma next_closer : Region.code.next b.closer = .code := by
  cases b <;> rfl

lemma size_opener : size [b.opener] = 1 := by
  cases b <;> rfl

lemma size_closer : size [b.closer] = 1 := by
  cases b <;> rfl

/-! The reader of the text with round brackets. -/

lemma bind_map {α β : Type} {x : Except Stop α} {f : α → α} {g : β → β} {k k' : α → Except Stop β}
    (h : ∀ a, x = .ok a → k' (f a) = (k a).map g) : (x.map f).bind k' = (x.bind k).map g := by
  cases x with
  | error stop => rfl
  | ok a => exact h a rfl

lemma place_uniform (start : ℕ) (fs : List (ℕ × Value)) (levels : List Level) (v : Value) :
    place start fs (levels.map Level.uniform) v =
      ((place start fs levels v).1.map Level.uniform, (place start fs levels v).2) := by
  induction levels generalizing v with
  | nil => rfl
  | cons level levels ih =>
    cases level with
    | list bracket items => rfl
    | quote => exact ih v.quoted

lemma deliver_uniform (v : Value) : s.uniform.deliver v = (s.deliver v).uniform := by
  rw [deliver, State.uniform]
  simp only [place_uniform]
  rfl

lemma begin_uniform : s.uniform.begin = s.begin.uniform := by
  rw [begin, begin, State.uniform, List.isEmpty_map]
  rfl

lemma enter_uniform (level : Level) : s.uniform.enter level.uniform = (s.enter level).uniform := by
  rw [enter, begin_uniform]
  rfl

lemma settle_uniform : s.uniform.settle = s.settle.map State.uniform := by
  obtain ⟨position, mode, levels, start, forms⟩ := s
  cases mode with
  | token first chars =>
    simp only [State.uniform, settle]
    cases atom? chars.reverse with
    | none => rfl
    | some v =>
      exact congrArg Except.ok (deliver_uniform (s := ⟨position, _, levels, start, forms⟩) v)
  | _ => rfl

lemma dispatch_plain (h : Plain c) :
    s.uniform.dispatch options c = (s.dispatch options c).map State.uniform := by
  rcases char_cases c with hc | rfl | rfl | rfl | ⟨b, rfl⟩ | ⟨b, rfl⟩ | hc | hc
  · rw [dispatch_space hc, dispatch_space hc]
    rfl
  · rw [dispatch_semicolon, dispatch_semicolon]
    split <;> rfl
  · rw [dispatch_string, dispatch_string, begin_uniform]
    rfl
  · have hquote : s.uniform.enter .quote = (s.enter .quote).uniform := enter_uniform .quote
    rw [dispatch_quote, dispatch_quote, hquote]
    rfl
  · exact absurd h not_plain_opener
  · exact absurd h not_plain_closer
  · rw [dispatch_stray (.inr hc), dispatch_stray (.inr hc)]
    rfl
  · rw [dispatch_token hc, dispatch_token hc, begin_uniform]
    rfl

lemma close_uniform (h : ∀ bracket ∈ s.families.head?, bracket = b) :
    s.uniform.close .round = (s.close b).map State.uniform := by
  rw [close, close, State.uniform]
  cases hs : s.levels with
  | nil => rfl
  | cons level levels =>
    cases level with
    | quote => rfl
    | list bracket items =>
      have hbracket : bracket ∈ s.families.head? := by
        rw [families, hs]
        rfl
      obtain rfl := h bracket hbracket
      simp only [List.map_cons, Level.uniform, if_true]
      exact congrArg Except.ok (deliver_uniform (s := { s with levels := levels }) _)

lemma place_families (start : ℕ) (fs : List (ℕ × Value)) (levels : List Level) (v : Value) :
    (place start fs levels v).1.filterMap Level.family? = levels.filterMap Level.family? := by
  induction levels generalizing v with
  | nil => rfl
  | cons level levels ih =>
    cases level with
    | list bracket items => rfl
    | quote => exact ih v.quoted

lemma families_deliver (v : Value) : (s.deliver v).families = s.families :=
  place_families _ _ _ v

lemma families_settle (h : s.settle = .ok t) : t.families = s.families := by
  rw [settle] at h
  split at h
  · split at h <;> cases h
    exact families_deliver _
  · cases h
    rfl

lemma families_close (h : s.close b = .ok t) : s.families = b :: t.families := by
  obtain ⟨items, levels, hs, rfl⟩ := close_eq_ok h
  rw [families_deliver, families, hs]
  rfl

lemma families_dispatch (hc : Plain c) (h : s.dispatch options c = .ok t) :
    t.families = s.families := by
  rcases char_cases c with hs | rfl | rfl | rfl | ⟨b, rfl⟩ | ⟨b, rfl⟩ | hs | hs
  · rw [dispatch_space hs] at h
    cases h
    rfl
  · rw [dispatch_semicolon] at h
    split at h <;> cases h
    rfl
  · cases h
    rfl
  · cases h
    rfl
  · exact absurd hc not_plain_opener
  · exact absurd hc not_plain_closer
  · rw [dispatch_stray (.inr hs)] at h
    cases h
  · rw [dispatch_token hs] at h
    cases h
    rfl

/-! One character. -/

lemma read_opener (hs : s.mode.region = .code) :
    s.read options b.opener = s.settle.map (·.enter (.list b [])) := by
  rw [read_code hs isTokenChar_opener]
  cases s.settle with
  | error stop => rfl
  | ok t => exact dispatch_opener b

lemma read_closer (hs : s.mode.region = .code) :
    s.read options b.closer = s.settle.bind (·.close b) := by
  rw [read_code hs isTokenChar_closer]
  cases s.settle with
  | error stop => rfl
  | ok t => exact dispatch_closer b

lemma read_opener_uniform (hs : s.mode.region = .code) (b : Bracket) :
    s.uniform.read options Bracket.round.opener = (s.read options b.opener).map State.uniform := by
  rw [read_opener (s := s.uniform) hs, read_opener hs, settle_uniform]
  cases s.settle with
  | error stop => rfl
  | ok t => exact congrArg Except.ok (enter_uniform (.list b []))

lemma read_closer_uniform (hs : s.mode.region = .code)
    (h : ∀ bracket ∈ s.families.head?, bracket = b) :
    s.uniform.read options Bracket.round.closer = (s.read options b.closer).map State.uniform := by
  rw [read_closer (s := s.uniform) hs, read_closer hs, settle_uniform]
  refine bind_map fun t ht => close_uniform ?_
  rwa [families_settle ht]

lemma read_plain (h : s.mode.region = .code → Plain c) :
    s.uniform.read options c = (s.read options c).map State.uniform := by
  obtain ⟨position, mode, levels, start, forms⟩ := s
  cases mode with
  | between => exact dispatch_plain (h rfl)
  | comment =>
    simp only [State.uniform, State.read]
    split <;> rfl
  | token first chars =>
    simp only [State.uniform, State.read]
    split
    · rfl
    · exact settle_uniform (s := ⟨position, .token first chars, levels, start, forms⟩) ▸
        bind_map fun t _ => dispatch_plain (h rfl)
  | string chars =>
    simp only [State.uniform, State.read]
    split
    · exact congrArg Except.ok (deliver_uniform (s := ⟨position, _, levels, start, forms⟩) _)
    · split <;> rfl
  | escape chars =>
    simp only [State.uniform, State.read]
    split <;> rfl

lemma families_read_opener (hs : s.mode.region = .code) (h : s.read options b.opener = .ok t) :
    t.families = b :: s.families := by
  rw [read_opener hs] at h
  obtain ⟨u, hu, rfl⟩ := map_eq_ok h
  rw [← families_settle hu]
  rfl

lemma families_read_closer (hs : s.mode.region = .code) (h : s.read options b.closer = .ok t) :
    s.families = b :: t.families := by
  rw [read_closer hs] at h
  obtain ⟨u, hu, h⟩ := bind_eq_ok h
  rw [← families_settle hu, families_close h]

lemma families_read_plain (hc : s.mode.region = .code → Plain c) (h : s.read options c = .ok t) :
    t.families = s.families := by
  cases hs : s.mode with
  | between =>
    rw [read_between hs] at h
    exact families_dispatch (hc (congrArg Mode.region hs)) h
  | comment =>
    simp only [State.read, hs] at h
    cases h
    split <;> rfl
  | token first chars =>
    simp only [State.read, hs] at h
    split at h
    · cases h
      rfl
    · obtain ⟨u, hu, h⟩ := bind_eq_ok h
      rw [families_dispatch (hc (congrArg Mode.region hs)) h, families_settle hu]
  | string chars =>
    simp only [State.read, hs] at h
    split at h
    · cases h
      exact families_deliver _
    · split at h <;> cases h <;> rfl
  | escape chars =>
    simp only [State.read, hs] at h
    split at h <;> cases h
    rfl

lemma families_uniform : s.uniform.families = s.families.map fun _ => .round := by
  have hlevel : (fun level : Level => level.uniform.family?) =
      fun level => level.family?.map fun _ => Bracket.round := by
    funext level
    cases level <;> rfl
  rw [families, families, State.uniform, List.filterMap_map, List.map_filterMap]
  exact congrArg (List.filterMap · s.levels) hlevel

/-! Whole texts. -/

lemma finish_uniform : s.uniform.finish = s.finish := by
  rw [finish, finish, settle_uniform]
  cases s.settle with
  | error stop => rfl
  | ok t =>
    change (if t.inString || !(t.levels.map Level.uniform).isEmpty then _ else _) = _
    rw [List.isEmpty_map]
    rfl

lemma read_uniform (hs : s.mode.region = .code) (h : s.read options c = .ok t) :
    s.uniform.read options (uniformChar c) = .ok t.uniform := by
  rcases bracket_cases c with ⟨b, rfl⟩ | ⟨b, rfl⟩ | hc
  · rw [uniformChar_opener, read_opener_uniform hs b, h]
    rfl
  · have hfit : ∀ bracket ∈ s.families.head?, bracket = b := by
      simp [families_read_closer hs h]
    rw [uniformChar_closer, read_closer_uniform hs hfit, h]
    rfl
  · rw [uniformChar_plain hc, read_plain fun _ => hc, h]
    rfl

lemma size_uniformChar (c : Char) : size [uniformChar c] = size [c] := by
  rcases bracket_cases c with ⟨b, rfl⟩ | ⟨b, rfl⟩ | hc
  · rw [uniformChar_opener, size_opener, size_opener]
  · rw [uniformChar_closer, size_closer, size_closer]
  · rw [uniformChar_plain hc]

lemma skip_uniform {d : Char} {r : State} (hd : size [d] = size [c])
    (h : r.uniform = t.uniform) : (r.skip [d]).uniform = (t.skip [c]).uniform := by
  change r.uniform.skip [d] = t.uniform.skip [c]
  rw [h, skip, skip, hd]

theorem run_uniformFrom {fs : List (ℕ × Value)} {text : List Char}
    (h : run options s text = .ok fs) :
    run options s.uniform (uniformFrom s.mode.region text) = .ok fs := by
  induction text generalizing s with
  | nil =>
    rw [uniformFrom, run_nil, finish_uniform]
    exact h
  | cons c cs ih =>
    rw [run_cons] at h
    obtain ⟨t, ht, h⟩ := bind_eq_ok h
    have hrest := ih h
    rw [skip_mode, region_read ht] at hrest
    rw [uniformFrom, run_cons]
    by_cases hs : s.mode.region = .code
    · rw [if_pos hs, read_uniform hs ht, ← hrest]
      exact congrArg (run options · _) (skip_uniform (t := t) (r := t) (size_uniformChar c) rfl)
    · rw [if_neg hs, read_plain fun hcode => absurd hcode hs, ht]
      exact hrest

lemma read_plain_alike {u : State} (hs' : u.uniform = s.uniform)
    (hc : s.mode.region = .code → Plain c) (h : s.read options c = .ok t) :
    ∃ r, u.read options c = .ok r ∧ r.uniform = t.uniform ∧ r.families = u.families := by
  have hc' : u.mode.region = .code → Plain c := fun hcode =>
    hc ((congrArg (·.mode.region) hs').symm.trans hcode)
  have hread : (u.read options c).map State.uniform = .ok t.uniform := by
    rw [← read_plain hc', hs', read_plain hc, h]
    rfl
  obtain ⟨r, ht', hu⟩ := map_eq_ok hread
  exact ⟨r, ht', hu, families_read_plain hc' ht'⟩

lemma read_turned {u : State} (hs : s.mode.region = .code) (hs' : u.uniform = s.uniform)
    (h : s.read options c = .ok t) (fresh : Bracket) :
    ∃ r, u.read options (turn fresh u.families c).1 = .ok r ∧ r.uniform = t.uniform ∧
      r.families = (turn fresh u.families c).2 := by
  have hcode : u.mode.region = .code := (congrArg (·.mode.region) hs').trans hs
  have hread := read_uniform hs h
  rw [← hs'] at hread
  rcases bracket_cases c with ⟨b, rfl⟩ | ⟨b, rfl⟩ | hc
  · rw [uniformChar_opener, read_opener_uniform hcode fresh] at hread
    obtain ⟨r, ht', hu⟩ := map_eq_ok hread
    rw [turn_opener]
    exact ⟨r, ht', hu, families_read_opener hcode ht'⟩
  · have hfamilies : u.families.map (fun _ => Bracket.round) =
        (b :: t.families).map fun _ => Bracket.round := by
      rw [← families_uniform, hs', families_uniform, families_read_closer hs h]
    obtain ⟨bracket, outer, hopened⟩ : ∃ bracket outer, u.families = bracket :: outer :=
      List.exists_cons_of_ne_nil fun hnil => by simp [hnil] at hfamilies
    have hfit : ∀ family ∈ u.families.head?, family = bracket := by simp [hopened]
    rw [uniformChar_closer, read_closer_uniform hcode hfit] at hread
    obtain ⟨r, ht', hu⟩ := map_eq_ok hread
    rw [hopened, turn_closer]
    refine ⟨r, ht', hu, ?_⟩
    have hafter := families_read_closer hcode ht'
    rw [hopened] at hafter
    exact (List.cons.inj hafter).2.symm
  · rw [turn_plain hc]
    exact read_plain_alike hs' (fun _ => hc) h

lemma turn_cases (fresh : Bracket) (opened : List Bracket) (c : Char) :
    (∃ b b' : Bracket, c = b.opener ∧ (turn fresh opened c).1 = b'.opener) ∨
      (∃ b b' : Bracket, c = b.closer ∧ (turn fresh opened c).1 = b'.closer) ∨
      Plain c ∧ (turn fresh opened c).1 = c := by
  rcases bracket_cases c with ⟨b, rfl⟩ | ⟨b, rfl⟩ | hc
  · exact .inl ⟨b, fresh, rfl, by rw [turn_opener]⟩
  · cases opened with
    | nil => exact .inr (.inl ⟨b, b, rfl, by cases b <;> rfl⟩)
    | cons bracket outer => exact .inr (.inl ⟨b, bracket, rfl, by rw [turn_closer]⟩)
  · exact .inr (.inr ⟨hc, by rw [turn_plain hc]⟩)

lemma size_turn (fresh : Bracket) (opened : List Bracket) (c : Char) :
    size [(turn fresh opened c).1] = size [c] := by
  rcases turn_cases fresh opened c with ⟨b, b', rfl, h⟩ | ⟨b, b', rfl, h⟩ | ⟨-, h⟩
  · rw [h, size_opener, size_opener]
  · rw [h, size_closer, size_closer]
  · rw [h]

theorem run_rebracketFrom (choice : ℕ → Bracket) {u : State} {fs : List (ℕ × Value)}
    {text : List Char} (n : ℕ) (hs' : u.uniform = s.uniform)
    (h : run options s text = .ok fs) :
    run options u (rebracketFrom choice s.mode.region u.families n text) = .ok fs := by
  induction text generalizing s u n with
  | nil =>
    rw [rebracketFrom, run_nil, ← finish_uniform, hs', finish_uniform]
    exact h
  | cons c cs ih =>
    rw [run_cons] at h
    obtain ⟨t, ht, h⟩ := bind_eq_ok h
    rw [rebracketFrom, run_cons, ← region_read ht]
    by_cases hs : s.mode.region = .code
    · obtain ⟨r, ht', hu, hfamilies⟩ := read_turned hs hs' ht (choice n)
      simp only [if_pos hs, ht', Except.bind]
      rw [← hfamilies]
      exact ih (s := t.skip [c]) (u := r.skip _) (n + 1) (skip_uniform (size_turn _ _ c) hu) h
    · obtain ⟨r, ht', hu, hfamilies⟩ := read_plain_alike hs' (fun hcode => absurd hcode hs) ht
      simp only [if_neg hs, ht', Except.bind]
      rw [← hfamilies]
      exact ih (s := t.skip [c]) (u := r.skip [c]) (n + 1) (skip_uniform rfl hu) h

lemma uniformFrom_rebracketFrom (choice : ℕ → Bracket) (region : Region) (opened : List Bracket)
    (n : ℕ) (text : List Char) :
    uniformFrom region (rebracketFrom choice region opened n text) = uniformFrom region text := by
  induction text generalizing region opened n with
  | nil => rfl
  | cons c cs ih =>
    rw [rebracketFrom, uniformFrom, uniformFrom]
    by_cases hs : region = .code
    · subst hs
      simp only [if_true]
      rcases turn_cases (choice n) opened c with ⟨b, b', rfl, h⟩ | ⟨b, b', rfl, h⟩ | ⟨-, h⟩
      · rw [h, uniformChar_opener, uniformChar_opener, next_opener, next_opener, ih]
      · rw [h, uniformChar_closer, uniformChar_closer, next_closer, next_closer, ih]
      · rw [h, ih]
    · simp only [if_neg hs]
      rw [ih]

/-- A text that is read at all is read the same with all its brackets made round, and with any
family chosen for each of its pairs. -/
theorem readForms_families {label : Option String} {source : String} {fs : List (ℕ × Value)}
    (h : readForms options label source = .ok fs) :
    readForms options label (uniform source) = .ok fs ∧
      ∀ choice : ℕ → Bracket, uniform (rebracketed choice source) = uniform source ∧
        readForms options label (rebracketed choice source) = .ok fs := by
  have hrun : run options initial source.toList = .ok fs := readForms_eq_ok.1 h
  refine ⟨?_, fun choice => ⟨?_, ?_⟩⟩
  · rw [readForms_eq_ok, Reader.uniform, String.toList_ofList]
    exact run_uniformFrom hrun
  · rw [Reader.uniform, rebracketed, String.toList_ofList, uniformFrom_rebracketFrom,
      Reader.uniform]
  · rw [readForms_eq_ok, rebracketed, String.toList_ofList]
    exact run_rebracketFrom choice (u := initial) 0 rfl hrun

theorem readForms_families_nested :
    ∃ fs, fs = [(0, .ofList [.symbol "a", .ofList [.quoted (.symbol "b"), .string "]"]])] ∧
      readForms ⟨true⟩ none "[a\x7b'b \"]\"\x7d;)\n]" = .ok fs ∧
      readForms ⟨true⟩ none "(a('b \"]\");)\n)" = .ok fs ∧
      readForms ⟨true⟩ none "\x7ba['b \"]\"];)\n\x7d" = .ok fs := by
  have h : readForms ⟨true⟩ none "[a\x7b'b \"]\"\x7d;)\n]" =
      .ok [(0, .ofList [.symbol "a", .ofList [.quoted (.symbol "b"), .string "]"]])] := rfl
  obtain ⟨huniform, hrebracketed⟩ := readForms_families h
  exact ⟨_, rfl, h, huniform, (hrebracketed fun k => if k = 0 then .curly else .square).2⟩

end Lisplet.Reader

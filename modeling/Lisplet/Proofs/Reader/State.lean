import Lisplet.Proofs.Outcome
import Lisplet.Proofs.Reader.Lexeme
import Mathlib.Data.String.Basic

/-! The state of a reader between the parts of a text, and what one character does to it. -/

namespace Lisplet.Reader

open State

def run (options : Options) (s : State) (text : List Char) : Except Stop (List (Nat × Value)) :=
  (feedAll options s text).bind State.finish

def size (cs : List Char) : Nat :=
  String.utf8Len cs

namespace State

def skip (s : State) (cs : List Char) : State :=
  { s with position := s.position + size cs }

def accept (s : State) : Lexeme → Except Stop State
  | .gap => .ok s
  | .opener b => .ok (s.enter (.list b []))
  | .closer b => s.close b
  | .quote => .ok (s.enter .quote)
  | .atom v => .ok (s.begin.deliver v)

end State

variable {options : Options} {s : State}

@[simp] lemma size_nil : size [] = 0 := rfl

lemma size_cons (c : Char) (cs : List Char) : size (c :: cs) = c.utf8Size + size cs :=
  Nat.add_comm ..

@[simp] lemma size_append (cs ds : List Char) : size (cs ++ ds) = size cs + size ds :=
  String.utf8Len_append cs ds

lemma size_toList (text : String) : size text.toList = text.utf8ByteSize := by
  rw [size, ← String.utf8ByteSize_ofList, String.ofList_toList]

lemma size_pos {cs : List Char} (h : cs ≠ []) : 0 < size cs := by
  rw [size, Nat.pos_iff_ne_zero]
  simpa using h

@[simp] lemma skip_nil : s.skip [] = s := rfl

lemma skip_append (cs ds : List Char) : s.skip (cs ++ ds) = (s.skip cs).skip ds := by
  simp [skip, Nat.add_assoc]

lemma skip_skip (cs ds : List Char) : (s.skip cs).skip ds = s.skip (cs ++ ds) :=
  (skip_append cs ds).symm

lemma skip_cons (c : Char) (cs : List Char) : s.skip (c :: cs) = (s.skip [c]).skip cs :=
  skip_append [c] cs

@[simp] lemma skip_mode (cs : List Char) : (s.skip cs).mode = s.mode := rfl

@[simp] lemma skip_levels (cs : List Char) : (s.skip cs).levels = s.levels := rfl

@[simp] lemma skip_forms (cs : List Char) : (s.skip cs).forms = s.forms := rfl

@[simp] lemma skip_position (cs : List Char) : (s.skip cs).position = s.position + size cs := rfl

lemma between_skip (hs : s.mode = .between) (cs : List Char) : (s.skip cs).mode = .between := hs

lemma between_enter (level : Level) : (s.enter level).mode = .between := rfl

/-! One character. -/

lemma run_nil : run options s [] = s.finish := rfl

lemma settle_position {t : State} (h : s.settle = .ok t) : t.position = s.position := by
  rw [settle] at h
  split at h
  · split at h <;> cases h
    rfl
  · cases h
    rfl

lemma dispatch_position {t : State} {c : Char} (h : s.dispatch options c = .ok t) :
    t.position = s.position := by
  unfold dispatch close at h
  repeat' split at h
  all_goals cases h
  all_goals rfl

lemma read_position {t : State} {c : Char} (h : s.read options c = .ok t) :
    t.position = s.position := by
  rw [State.read] at h
  split at h
  · exact dispatch_position h
  · cases h
    split <;> rfl
  · split at h
    · cases h
      rfl
    · obtain ⟨u, hu, h⟩ := bind_eq_ok h
      rw [dispatch_position h, settle_position hu]
  · split at h
    · cases h
      rfl
    · split at h <;> cases h <;> rfl
  · split at h <;> cases h
    rfl

lemma feedAll_cons (c : Char) (text : List Char) : feedAll options s (c :: text) =
    (s.read options c).bind fun t => feedAll options (t.skip [c]) text := by
  rw [feedAll, List.foldlM_cons, State.feed]
  cases h : s.read options c with
  | error stop => rfl
  | ok t =>
    have hc : size [c] = c.utf8Size := by simp [size_cons]
    rw [Except.map, ← read_position h]
    simp only [skip, hc]
    rfl

lemma run_cons (c : Char) (text : List Char) :
    run options s (c :: text) =
      (s.read options c).bind fun t => run options (t.skip [c]) text := by
  rw [run, feedAll_cons]
  cases s.read options c <;> rfl

lemma skip_position_add {t : State} {c : Char} (h : s.read options c = .ok t) (cs : List Char) :
    (t.skip [c]).position + size cs = s.position + size (c :: cs) := by
  rw [skip_position, read_position h, Nat.add_assoc, ← size_append, List.singleton_append]

lemma feedAll_position {t : State} {text : List Char} (h : feedAll options s text = .ok t) :
    t.position = s.position + size text := by
  induction text generalizing s with
  | nil =>
    cases h
    rfl
  | cons c cs ih =>
    rw [feedAll_cons] at h
    obtain ⟨u, hu, h⟩ := bind_eq_ok h
    rw [ih h, skip_position_add hu]

lemma run_append (first second : List Char) : run options s (first ++ second) =
    (feedAll options s first).bind fun t => run options t second := by
  induction first generalizing s with
  | nil => rfl
  | cons c cs ih =>
    rw [List.cons_append, run_cons, feedAll_cons]
    cases s.read options c with
    | error stop => rfl
    | ok t => exact ih

lemma read_between (hs : s.mode = .between) (c : Char) :
    s.read options c = s.dispatch options c := by
  simp [State.read, hs]

lemma dispatch_space {c : Char} (h : c ∈ spaces) : s.dispatch options c = .ok s :=
  if_pos (isSpace_iff.2 h)

lemma dispatch_semicolon : s.dispatch options ';' =
    if options.comments then .ok { s with mode := .comment } else .error ⟨.invalid, s.position⟩ :=
  rfl

lemma dispatch_string : s.dispatch options '"' = .ok { s.begin with mode := .string [] } := rfl

lemma dispatch_quote : s.dispatch options '\x27' = .ok (s.enter .quote) := rfl

lemma dispatch_opener (b : Bracket) :
    s.dispatch options b.opener = .ok (s.enter (.list b [])) := by
  cases b <;> rfl

lemma dispatch_closer (b : Bracket) : s.dispatch options b.closer = s.close b := by
  cases b <;> rfl

lemma dispatch_other {c : Char} (hs : c ∉ spaces) (hd : c ∉ delimiters) :
    s.dispatch options c =
      if Text.isBlank c then .error ⟨.invalid, s.position⟩
      else .ok { s.begin with mode := .token s.position [c] } := by
  have ho := ofOpener?_eq_none hd
  have hc := ofCloser?_eq_none hd
  simp only [delimiters, List.mem_cons, List.not_mem_nil, or_false, not_or] at hd
  rw [State.dispatch, if_neg (by rwa [isSpace_iff]), if_neg (by tauto), if_neg (by tauto),
    if_neg (by tauto), ho, hc]

lemma dispatch_token {c : Char} (h : isTokenChar c = true) :
    s.dispatch options c = .ok { s.begin with mode := .token s.position [c] } := by
  have hs : c ∉ spaces := fun hc => by simp [isTokenChar_of_mem_spaces hc] at h
  obtain ⟨hb, hd⟩ := isTokenChar_iff.1 h
  rw [dispatch_other hs hd, if_neg (by simp [hb])]

lemma dispatch_stray {c : Char} (h : Stray options c) :
    s.dispatch options c = .error ⟨.invalid, s.position⟩ := by
  rcases h with ⟨rfl, hc⟩ | ⟨hb, hs⟩
  · rw [dispatch_semicolon, if_neg (by simp [hc])]
  · rw [dispatch_other hs (not_mem_delimiters hb), if_pos hb]

end Lisplet.Reader

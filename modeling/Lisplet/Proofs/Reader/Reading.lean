import Lisplet.Proofs.Reader.State

/-! What a reader does with a lexeme, and with a text that is stuck. -/

namespace Lisplet.Reader

open State

variable {options : Options} {s : State}

/-! Runs of characters that belong together. -/

lemma run_token {start : Nat} {chars : List Char} {cs : List Char} (rest : List Char)
    (hs : s.mode = .token start chars) (hcs : ∀ c ∈ cs, isTokenChar c = true) :
    run options s (cs ++ rest) =
      run options ({ s with mode := .token start (cs.reverse ++ chars) }.skip cs) rest := by
  induction cs generalizing s chars with
  | nil => simp [← hs]
  | cons c cs ih =>
    have hc := hcs c (by simp)
    rw [List.cons_append, run_cons, State.read, hs]
    simp only [hc, if_true, Except.bind]
    rw [ih rfl fun d hd => hcs d (by simp [hd])]
    simp [skip, size_cons, Nat.add_assoc]

lemma settle_between (hs : s.mode = .between) : s.settle = .ok s := by
  rw [settle, hs]

lemma finish_between (hs : s.mode = .between) :
    s.finish = if s.levels = [] then .ok s.forms.reverse else .error ⟨.incomplete, s.position⟩ := by
  rw [finish, settle_between hs]
  simp [Except.bind, inString, hs]

lemma settle_token {start : Nat} {chars : List Char} (hs : s.mode = .token start chars) :
    s.settle =
      match atom? chars.reverse with
      | some v => .ok (s.deliver v)
      | none => .error ⟨.invalid, start⟩ := by
  cases s
  cases hs
  rfl

lemma settle_token_mode {start : Nat} {chars : List Char} {t : State}
    (hs : s.mode = .token start chars) (h : s.settle = .ok t) : t.mode = .between := by
  rw [settle_token hs] at h
  split at h <;> cases h
  rfl

lemma run_settle {start : Nat} {chars rest : List Char} (hs : s.mode = .token start chars)
    (hr : EndsToken rest) :
    run options s rest = s.settle.bind fun t => run options t rest := by
  cases ht : s.settle with
  | error stop =>
    cases rest with
    | nil => rw [run_nil, finish, ht]; rfl
    | cons c rest =>
      rw [run_cons, State.read, hs]
      simp only [show isTokenChar c = false from hr, Bool.false_eq_true, if_false, ht]
      rfl
  | ok t =>
    cases rest with
    | nil =>
      rw [run_nil, finish, ht]
      simp only [Except.bind, run_nil, finish, settle_between (settle_token_mode hs ht)]
    | cons c rest =>
      rw [run_cons, State.read, hs]
      simp only [show isTokenChar c = false from hr, Bool.false_eq_true, if_false, ht]
      rw [Except.bind, Except.bind, run_cons, read_between (settle_token_mode hs ht)]

lemma run_comment {cs rest : List Char} (hs : s.mode = .comment) (hcs : '\n' ∉ cs)
    (hr : EndsLine rest) :
    run options s (cs ++ rest) = run options ({ s with mode := .between }.skip cs) rest := by
  induction cs generalizing s with
  | nil =>
    cases rest with
    | nil =>
      have hb : ({ s with mode := .between } : State).mode = .between := rfl
      rw [List.nil_append, skip_nil, run_nil, run_nil, finish_between hb, finish, settle, hs]
      simp [Except.bind, inString, hs]
    | cons c rest =>
      obtain rfl : c = '\n' := hr
      rw [List.nil_append, run_cons, run_cons, State.read, hs]
      rfl
  | cons c cs ih =>
    simp only [List.mem_cons, not_or] at hcs
    rw [List.cons_append, run_cons, State.read, hs]
    simp only [Ne.symm hcs.1, if_false, Except.bind]
    rw [ih (s := s.skip [c]) hs hcs.2]
    simp [skip, size_cons, Nat.add_assoc]

lemma run_literal {chars cs ds : List Char} (rest : List Char) (hs : s.mode = .string chars)
    (h : Literal cs ds) :
    run options s (cs ++ rest) =
      run options ({ s with mode := .string (ds.reverse ++ chars) }.skip cs) rest := by
  induction h generalizing s chars with
  | nil => simp [← hs]
  | plain hq hb _ ih =>
    rw [List.cons_append, run_cons, State.read, hs]
    simp only [hq, hb, if_false, Except.bind]
    rw [ih rfl]
    simp [skip, size_cons, Nat.add_assoc]
  | escape he _ ih =>
    rw [List.cons_append, List.cons_append, run_cons, State.read, hs]
    simp only [show ¬ '\\' = '"' by decide, if_false, if_true, Except.bind]
    rw [run_cons, State.read]
    simp only [skip_mode, unescape?_eq_some.2 he, Except.bind]
    rw [ih rfl]
    simp [skip, size_cons, Nat.add_assoc]

/-! Lexemes. -/

lemma close_eq_ok {t : State} {b : Bracket} (h : s.close b = .ok t) :
    ∃ items levels, s.levels = .list b items :: levels ∧
      t = { s with levels := levels }.deliver (.ofList items.reverse) := by
  rw [close] at h
  split at h
  · next hl =>
    split at h <;> cases h
    next hb => exact ⟨_, _, by rw [hl, hb], rfl⟩
  · cases h

lemma accept_mode {t : State} {x : Lexeme} (hs : s.mode = .between) (h : s.accept x = .ok t) :
    t.mode = .between := by
  cases x with
  | gap =>
    cases h
    exact hs
  | closer b =>
    obtain ⟨items, levels, _, rfl⟩ := close_eq_ok h
    rfl
  | _ =>
    cases h
    rfl

lemma accept_position {t : State} {x : Lexeme} (h : s.accept x = .ok t) :
    t.position = s.position := by
  cases x with
  | closer b =>
    obtain ⟨items, levels, _, rfl⟩ := close_eq_ok h
    rfl
  | _ =>
    cases h
    rfl

lemma run_between {c : Char} (hs : s.mode = .between) (text : List Char) :
    run options s (c :: text) =
      (s.dispatch options c).bind fun t => run options (t.skip [c]) text := by
  rw [run_cons, read_between hs]

lemma run_string_open (hs : s.mode = .between) (text : List Char) :
    run options s ('"' :: text) =
      run options ({ s.begin with mode := .string [] }.skip ['"']) text := by
  rw [run_between hs]
  rfl

lemma run_string_close {chars : List Char} (hs : s.mode = .string chars) (text : List Char) :
    run options s ('"' :: text) =
      run options ((s.deliver (.string (String.ofList chars.reverse))).skip ['"']) text := by
  rw [run_cons, State.read, hs]
  rfl

lemma run_token_open {c : Char} {cs rest : List Char} (hs : s.mode = .between)
    (hcs : ∀ d ∈ c :: cs, isTokenChar d = true) :
    run options s (c :: (cs ++ rest)) =
      run options ({ s.begin with mode := .token s.position (c :: cs).reverse }.skip (c :: cs))
        rest := by
  rw [run_between hs, dispatch_token (hcs c (by simp)), Except.bind, run_token rest rfl fun d hd =>
    hcs d (by simp [hd])]
  simp [skip, size_cons, Nat.add_assoc]

lemma run_token_settled {cs rest : List Char} (hs : s.mode = .between) (hne : cs ≠ [])
    (hcs : ∀ c ∈ cs, isTokenChar c = true) (hrest : EndsToken rest) :
    run options s (cs ++ rest) =
      match atom? cs with
      | some v => run options ((s.begin.deliver v).skip cs) rest
      | none => .error ⟨.invalid, s.position⟩ := by
  obtain ⟨c, cs, rfl⟩ := List.exists_cons_of_ne_nil hne
  rw [List.cons_append, run_token_open hs hcs, run_settle rfl hrest, settle_token rfl,
    List.reverse_reverse]
  cases atom? (c :: cs) <;> rfl

theorem run_lexeme {cs rest : List Char} {x : Lexeme} (hs : s.mode = .between)
    (h : Spells options cs x rest) :
    run options s (cs ++ rest) = (s.accept x).bind fun t => run options (t.skip cs) rest := by
  cases h with
  | space hc => rw [List.singleton_append, run_between hs, dispatch_space hc]; rfl
  | comment hc hcs hr =>
    have hd : s.dispatch options ';' = .ok { s with mode := .comment } := by
      rw [dispatch_semicolon, if_pos hc]
    rw [List.cons_append, run_between hs, hd, Except.bind, run_comment rfl hcs hr]
    simp [accept, Except.bind, skip, size_cons, hs, Nat.add_assoc]
  | opener b => rw [List.singleton_append, run_between hs, dispatch_opener]; rfl
  | closer b => rw [List.singleton_append, run_between hs, dispatch_closer]; rfl
  | quote => rw [List.singleton_append, run_between hs]; rfl
  | @string cs ds rest hl =>
    rw [List.cons_append, run_string_open hs, List.append_assoc, run_literal _ rfl hl,
      List.singleton_append, run_string_close rfl]
    simp [accept, Except.bind, skip, size_cons, deliver, Nat.add_assoc]
  | token hne ht hr hv =>
    rw [run_token_settled hs hne ht hr, atom?_eq_some_iff.2 hv]
    rfl

lemma run_char {c : Char} {rest : List Char} {x : Lexeme} (hs : s.mode = .between)
    (h : Spells options [c] x rest) :
    run options s (c :: rest) = (s.accept x).bind fun t => run options (t.skip [c]) rest :=
  run_lexeme hs h

lemma run_unfinished {chars before after : List Char} {kind : SyntaxFault.Kind}
    (hs : s.mode = .string chars) (h : Unfinished before after kind) :
    run options s (before ++ after) = .error ⟨kind, s.position + size before⟩ := by
  cases h with
  | plain hl =>
    rw [run_literal _ hs hl, run_nil, finish, settle]
    rfl
  | backslash hl =>
    rw [List.append_nil, run_literal _ hs hl, run_cons, State.read]
    simp [Except.bind, run_nil, finish, settle, inString, Nat.add_assoc]
  | escape hl he =>
    rw [run_literal _ hs hl, run_cons, State.read]
    have hn : ∀ d, Text.unescape? _ ≠ some d := fun d hd => he d (unescape?_eq_some.1 hd)
    simp only [skip_mode, show ¬ '\\' = '"' by decide, if_false, if_true, Except.bind]
    rw [run_cons, State.read]
    simp only [skip_position, Option.eq_none_iff_forall_ne_some.2 hn, Except.bind]
    rfl

theorem run_stuck {before after : List Char} {kind : SyntaxFault.Kind} (hs : s.mode = .between)
    (h : Stuck options before after kind) :
    run options s (before ++ after) = .error ⟨kind, s.position + size before⟩ := by
  cases h with
  | stray hc => rw [List.nil_append, run_between hs, dispatch_stray hc]; rfl
  | @token cs rest hne ht hr hv =>
    have ha : atom? cs = none :=
      Option.eq_none_iff_forall_ne_some.2 fun v hc => hv v (atom?_eq_some_iff.1 hc)
    rw [List.nil_append, run_token_settled hs hne ht hr, ha]
    rfl
  | string hu =>
    rw [List.cons_append, run_string_open hs, run_unfinished rfl hu]
    simp [skip, size_cons, Nat.add_assoc]
    rfl

end Lisplet.Reader

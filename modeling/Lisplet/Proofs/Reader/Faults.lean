import Lisplet.Proofs.Reader.Recognition

/-! Where reading fails, and why. What stands before a fault can always be completed, and nothing
behind it takes the fault back. -/

namespace Lisplet.Reader

open State

variable {options : Options} {s : State}

/-! Texts that complete what is open. -/

def closing : List Level → List Char
  | [] => []
  | .list b _ :: levels => b.closer :: closing levels
  | .quote :: levels => closing levels

def completion (levels : List Level) : List Char :=
  -- the empty list is a form for an open quote mark
  '\n' :: Bracket.round.opener :: Bracket.round.closer :: closing levels

lemma closing_place (start : ℕ) (fs : List (ℕ × Value)) (levels : List Level) (v : Value) :
    closing (place start fs levels v).1 = closing levels := by
  induction levels generalizing v with
  | nil => rfl
  | cons level levels ih =>
    cases level with
    | list b items => rfl
    | quote => exact ih v.quoted

lemma place_ne_quote (start : ℕ) (fs : List (ℕ × Value)) (levels rest : List Level) (v : Value) :
    (place start fs levels v).1 ≠ .quote :: rest := by
  induction levels generalizing v with
  | nil => simp [place]
  | cons level levels ih =>
    cases level with
    | list b items => simp [place]
    | quote => exact ih v.quoted

lemma run_closing (hs : s.mode = .between) (hq : ∀ rest, s.levels ≠ .quote :: rest) :
    ∃ fs, run options s (closing s.levels) = .ok fs := by
  induction h : closing s.levels generalizing s with
  | nil =>
    have hl : s.levels = [] := by
      match hl : s.levels with
      | [] => rfl
      | .quote :: rest => exact absurd hl (hq rest)
      | .list b items :: levels => simp [hl, closing] at h
    exact ⟨_, by rw [run_nil, finish_between hs, if_pos hl]⟩
  | cons c cs ih =>
    match hl : s.levels with
    | [] => simp [hl, closing] at h
    | .quote :: rest => exact absurd hl (hq rest)
    | .list b items :: levels =>
      obtain ⟨rfl, rfl⟩ : b.closer = c ∧ closing levels = cs := by simpa [hl, closing] using h
      rw [run_char hs (.closer b), accept, close_list hl]
      exact ih rfl (fun rest => place_ne_quote _ _ _ rest _) (closing_place _ _ _ _)

lemma run_completion (hs : s.mode = .between) :
    ∃ fs, run options s (completion s.levels) = .ok fs := by
  have hn : '\n' ∈ spaces := by simp [spaces]
  rw [completion, run_char hs (.space hn), accept, Except.bind,
    run_char (between_skip hs _) (.opener .round)]
  have hopen (rest : List Level) : Level.list .round [] :: s.levels ≠ .quote :: rest := by simp
  exact run_closing rfl hopen

/-! What may be put behind a lexeme, or behind a text that is stuck. -/

lemma endsToken_iff {rest : List Char} :
    EndsToken rest ↔ ∀ c ∈ rest.head?, isTokenChar c = false := by
  cases rest <;> simp [EndsToken]

lemma endsLine_iff {rest : List Char} : EndsLine rest ↔ ∀ c ∈ rest.head?, c = '\n' := by
  cases rest <;> simp [EndsLine]

/-- What may stand in the place of `rest` behind a lexeme: nothing, a line feed, or a text that
begins as `rest` does. -/
def Follows (rest rest' : List Char) : Prop :=
  ∀ c ∈ rest'.head?, c ∈ rest.head? ∨ c = '\n'

lemma Follows.of_head?_eq {rest rest' : List Char} (h : rest'.head? = rest.head?) :
    Follows rest rest' :=
  fun _ hc => .inl (h ▸ hc)

lemma Follows.forall_head {P : Char → Prop} {rest rest' : List Char} (hr : Follows rest rest')
    (hn : P '\n') (h : ∀ c ∈ rest.head?, P c) : ∀ c ∈ rest'.head?, P c := by
  intro c hc
  rcases hr c hc with hc | rfl
  · exact h c hc
  · exact hn

lemma Spells.follow {cs rest rest' : List Char} {x : Lexeme} (h : Spells options cs x rest)
    (hr : Follows rest rest') : Spells options cs x rest' := by
  cases h with
  | space hc => exact .space hc
  | comment hc hcs he =>
    exact .comment hc hcs (endsLine_iff.2 (hr.forall_head rfl (endsLine_iff.1 he)))
  | opener b => exact .opener b
  | closer b => exact .closer b
  | quote => exact .quote
  | string hl => exact .string hl
  | token hne ht he hv =>
    exact .token hne ht (endsToken_iff.2 (hr.forall_head rfl (endsToken_iff.1 he))) hv

lemma EndsToken.append {rest suffix : List Char} (hr : EndsToken rest) (hs : EndsToken suffix) :
    EndsToken (rest ++ suffix) := by
  cases rest with
  | nil => exact hs
  | cons c rest => exact hr

lemma Stuck.append {before after suffix : List Char} {kind : SyntaxFault.Kind}
    (h : Stuck options before after kind) (hk : kind ≠ .incomplete) (hs : EndsToken suffix) :
    Stuck options before (after ++ suffix) kind := by
  cases h with
  | stray hc => exact .stray hc
  | token hne ht hr hv =>
    rw [List.append_assoc]
    exact .token hne ht (hr.append hs) hv
  | string hu =>
    cases hu with
    | plain _ => exact absurd rfl hk
    | backslash _ => exact absurd rfl hk
    | escape hl he => exact .string (.escape hl he)

lemma Stuck.incomplete_iff {before after : List Char} {kind : SyntaxFault.Kind}
    (h : Stuck options before after kind) : kind = .incomplete ↔ after = [] := by
  cases h with
  | stray _ => simp
  | token hne _ _ _ => simp [hne]
  | string hu => cases hu <;> simp

lemma Unfinished.exists_literal {before after : List Char} {kind : SyntaxFault.Kind}
    (h : Unfinished before after kind) : ∃ cs ds, Literal (before ++ cs) ds := by
  cases h with
  | plain hl => exact ⟨[], _, by simpa using hl⟩
  | backslash hl =>
    have he : ('\\', '\\') ∈ escapes := by simp [escapes]
    exact ⟨['\\'], _, by simpa using hl.append (.escape he .nil)⟩
  | escape hl _ => exact ⟨[], _, by simpa using hl⟩

/-! Faults. -/

def Completable (options : Options) (s : State) (before : List Char) : Prop :=
  ∃ suffix, (before = [] → suffix.head? = some '\n') ∧
    ∃ fs, run options s (before ++ suffix) = .ok fs

structure Located (options : Options) (s : State) (text : List Char) (stop : Stop)
    (before after : List Char) : Prop where
  text_eq : text = before ++ after
  offset_eq : stop.offset = s.position + size before
  incomplete_iff : stop.kind = .incomplete ↔ after = []
  completable : Completable options s before
  stable : stop.kind ≠ .incomplete → ∀ suffix, EndsToken suffix →
    run options s (text ++ suffix) = .error stop

lemma completable_nil (hs : s.mode = .between) : Completable options s [] :=
  ⟨completion s.levels, fun _ => rfl, run_completion hs⟩

lemma completable_stuck {before after : List Char} {kind : SyntaxFault.Kind}
    (hs : s.mode = .between) (h : Stuck options before after kind) :
    Completable options s before := by
  cases h with
  | stray _ => exact completable_nil hs
  | token _ _ _ _ => exact completable_nil hs
  | @string before _ _ hu =>
    obtain ⟨cs, ds, hl⟩ := hu.exists_literal
    let t := (s.begin.deliver (.string (String.ofList ds))).skip ('"' :: (before ++ cs ++ ['"']))
    have ht : t.mode = .between := rfl
    obtain ⟨fs, hfs⟩ : ∃ fs, run options t (completion t.levels) = .ok fs := run_completion ht
    have hx : Spells options ('"' :: (before ++ cs ++ ['"'])) (.atom (.string (String.ofList ds)))
        (completion t.levels) := .string hl
    have h := run_lexeme hs hx
    refine ⟨cs ++ '"' :: completion t.levels, by simp, fs, ?_⟩
    simpa using h.trans hfs

lemma located_nil {stop : Stop} (hs : s.mode = .between) (h : run options s [] = .error stop) :
    Located options s [] stop [] [] := by
  rw [run_nil, finish_between hs] at h
  split at h
  · cases h
  · cases h
    exact ⟨rfl, rfl, by simp, completable_nil hs, fun hk => absurd rfl hk⟩

lemma located_stuck {before after : List Char} {kind : SyntaxFault.Kind} {stop : Stop}
    (hs : s.mode = .between) (hh : Stuck options before after kind)
    (h : run options s (before ++ after) = .error stop) :
    Located options s (before ++ after) stop before after := by
  rw [run_stuck hs hh] at h
  cases h
  refine ⟨rfl, rfl, hh.incomplete_iff, completable_stuck hs hh, fun hk suffix hr => ?_⟩
  rw [List.append_assoc, run_stuck hs (hh.append hk hr)]

lemma accept_error {x : Lexeme} {stop : Stop} (h : s.accept x = .error stop) :
    ∃ b, x = .closer b ∧ stop.offset = s.position ∧ stop.kind ≠ .incomplete := by
  cases x with
  | closer b =>
    refine ⟨b, rfl, ?_⟩
    rw [accept, close] at h
    split at h
    · split at h
      · cases h
      · cases h
        exact ⟨rfl, by simp⟩
    · cases h
      exact ⟨rfl, by simp⟩
  | _ => cases h

lemma located_closer {cs rest : List Char} {x : Lexeme} {stop : Stop} (hs : s.mode = .between)
    (hne : cs ≠ []) (hx : Spells options cs x rest) (h : s.accept x = .error stop) :
    Located options s (cs ++ rest) stop [] (cs ++ rest) := by
  obtain ⟨b, rfl, ho, hk⟩ := accept_error h
  cases hx
  refine ⟨rfl, ho, by simp [hk], completable_nil hs, fun _ suffix _ => ?_⟩
  rw [List.append_assoc, run_lexeme hs (.closer b), h]
  rfl

lemma located_lexeme {cs rest before after : List Char} {x : Lexeme} {stop : Stop} {t : State}
    (hs : s.mode = .between) (hne : cs ≠ []) (hx : Spells options cs x rest)
    (ht : s.accept x = .ok t) (hl : Located options (t.skip cs) rest stop before after) :
    Located options s (cs ++ rest) stop (cs ++ before) after := by
  refine ⟨by rw [hl.text_eq, List.append_assoc], ?_, hl.incomplete_iff, ?_, fun hk suffix hr => ?_⟩
  · rw [hl.offset_eq, skip_position, accept_position ht, size_append, Nat.add_assoc]
  · obtain ⟨suffix, hn, fs, hfs⟩ := hl.completable
    have hx' : Spells options cs x (before ++ suffix) := by
      refine hx.follow ?_
      rw [hl.text_eq]
      cases before with
      | nil =>
        intro c hc
        rw [List.nil_append, hn rfl] at hc
        exact .inr (Option.some.inj hc).symm
      | cons c before => exact .of_head?_eq rfl
    refine ⟨suffix, by simp [hne], fs, ?_⟩
    rw [List.append_assoc, run_lexeme hs hx', ht]
    exact hfs
  · have hx' : Spells options cs x (rest ++ suffix) := by
      refine hx.follow (.of_head?_eq ?_)
      cases rest with
      | nil =>
        have ha := (List.append_eq_nil_iff.1 hl.text_eq.symm).2
        exact absurd (hl.incomplete_iff.2 ha) hk
      | cons c rest => rfl
    rw [List.append_assoc, run_lexeme hs hx', ht]
    exact hl.stable hk suffix hr

theorem exists_located {text : List Char} {stop : Stop} (hs : s.mode = .between)
    (h : run options s text = .error stop) :
    ∃ before after, Located options s text stop before after := by
  -- each lexeme that is read leaves a shorter text, with the fault of the whole one in it
  induction hn : text.length using Nat.strongRecOn generalizing s text with
  | ind n ih =>
    match text with
    | [] => exact ⟨[], [], located_nil hs h⟩
    | c :: text =>
      have hstart : Begins options (c :: text) ∨ Halts options (c :: text) := begins_or_halts c text
      rcases hstart with hb | hh
      · obtain ⟨cs, x, rest, he, hne, hx⟩ := hb
        rw [he] at h hn ⊢
        cases ht : s.accept x with
        | error stop' =>
          rw [run_lexeme hs hx, ht] at h
          cases h
          exact ⟨_, _, located_closer hs hne hx ht⟩
        | ok t =>
          rw [run_lexeme hs hx, ht] at h
          have hpos := List.length_pos_iff.2 hne
          have hlt : rest.length < n := by
            rw [← hn, List.length_append]
            omega
          obtain ⟨before, after, hl⟩ := ih _ hlt (between_skip (accept_mode hs ht) cs) h rfl
          exact ⟨_, _, located_lexeme hs hne hx ht hl⟩
      · obtain ⟨before, after, kind, he, hh⟩ := hh
        rw [he] at h ⊢
        exact ⟨before, after, located_stuck hs hh h⟩

lemma readForms_eq_error {label : Option String} {source : String} {fault : SyntaxFault} :
    readForms options label source = .error fault ↔
      ∃ stop, run options initial source.toList = .error stop ∧
        fault = ⟨stop.kind, source, stop.offset, label⟩ := by
  have hrun : forms options source.toList = run options initial source.toList := rfl
  rw [readForms, hrun]
  cases run options initial source.toList with
  | ok fs => simp [Except.mapError]
  | error stop => simp [Except.mapError, eq_comm]

/-- A fault is at the end of the text exactly if the text is incomplete, the text before it can be
completed, and any other fault stays where it is when the text goes on behind its last token. -/
theorem readForms_eq_error_located {options : Options} {label : Option String} {source : String}
    {fault : SyntaxFault} (h : readForms options label source = .error fault) :
    fault.offset ≤ source.utf8ByteSize ∧ (⟨fault.offset⟩ : String.Pos.Raw).IsValid source ∧
      (fault.kind = .incomplete ↔ fault.offset = source.utf8ByteSize) ∧
      (∃ before after, source = before ++ after ∧ before.utf8ByteSize = fault.offset ∧
        ∃ suffix fs, readForms options label (before ++ suffix) = .ok fs) ∧
      (fault.kind ≠ .incomplete → ∀ suffix : String, EndsToken suffix.toList →
        readForms options label (source ++ suffix) =
          .error ⟨fault.kind, source ++ suffix, fault.offset, label⟩) := by
  obtain ⟨stop, hrun, rfl⟩ := readForms_eq_error.1 h
  obtain ⟨before, after, hl⟩ := exists_located rfl hrun
  have hsource : source = String.ofList before ++ String.ofList after := by
    rw [← String.ofList_append, ← hl.text_eq, String.ofList_toList]
  have hoffset : stop.offset = size before := by simpa [initial] using hl.offset_eq
  have hsize : source.utf8ByteSize = size before + size after := by
    rw [← size_toList, hl.text_eq, size_append]
  refine ⟨?_, ?_, ?_, ?_, ?_⟩
  · simp only [hoffset, hsize]
    omega
  · rw [String.Pos.Raw.isValid_iff_exists_append]
    exact ⟨_, _, hsource, by simp [hoffset, size]⟩
  · simp only [hl.incomplete_iff, hoffset, hsize]
    constructor
    · rintro rfl
      simp
    · intro he
      by_contra hne
      have := size_pos hne
      omega
  · obtain ⟨suffix, _, fs, hfs⟩ := hl.completable
    refine ⟨_, _, hsource, ?_, String.ofList suffix, fs, ?_⟩
    · rw [hoffset, size, String.utf8ByteSize_ofList]
    rw [readForms_eq_ok, String.toList_append, String.toList_ofList, String.toList_ofList]
    exact hfs
  · intro hk suffix hs
    refine readForms_eq_error.2 ⟨stop, ?_, rfl⟩
    rw [String.toList_append]
    exact hl.stable hk _ hs

theorem readForms_eq_error_located_closer :
    readForms defaultOptions none "(a 'b]" = .error ⟨.mismatched, "(a 'b]", 5, none⟩ ∧
      readForms defaultOptions none "(a 'b]\n)" = .error ⟨.mismatched, "(a 'b]\n)", 5, none⟩ := by
  have h : readForms defaultOptions none "(a 'b]" = .error ⟨.mismatched, "(a 'b]", 5, none⟩ := rfl
  exact ⟨h, (readForms_eq_error_located h).2.2.2.2 nofun "\n)" rfl⟩

end Lisplet.Reader

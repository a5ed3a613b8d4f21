import Lisplet.Proofs.Reader.Descent.Parts

/-! Reading forms by recursive descent, against the grammar of source text. A whole text comes to
what reading it one character at a time comes to. -/

namespace Lisplet.Reader.Descent

open State

variable {options : Options} {limit : ℕ} {s : State}

/-! Lists and quotes, over a way to read the forms in them. -/

def ReadsBelow (options : Options) (bound : ℕ) (go : Parser Value) : Prop :=
  ∀ text : List Char, text.length < bound → Yields (Form options) (Fails options) text (go text)

def FailsIn (options : Options) (b : Bracket) (part : List Char) (kind : SyntaxFault.Kind)
    (rest : List Char) : Prop :=
  ∀ (s : State) (read : List Value) (levels : List Level), s.mode = .between →
    s.levels = .list b read :: levels →
    run options s (part ++ rest) = .error ⟨kind, s.position + size part⟩

def ReadsRest (options : Options) (b : Bracket) (read : List Value) (part : List Char) (v : Value)
    (rest : List Char) : Prop :=
  ∃ vs, v = .ofList (read.reverse ++ vs) ∧ Items options b part vs rest

section

variable {go : Parser Value} {bound rounds : ℕ} {b closer : Bracket} {read : List Value}
  {text rest gaps : List Char}

lemma items_end (h : atmosphere limit options text = pure ((), [])) :
    items limit options go b (rounds + 1) read text = throw ⟨true, .incomplete, []⟩ := by
  rw [items, h, pure_bind]

lemma items_close (h : atmosphere limit options text = pure ((), b.closer :: rest)) :
    items limit options go b (rounds + 1) read text = pure (.ofList read.reverse, rest) := by
  rw [items, h, pure_bind]
  simp only [ofCloser?_closer, if_true, dropBytes?_char]
  rfl

lemma items_mismatched (h : atmosphere limit options text = pure ((), closer.closer :: rest))
    (hb : closer ≠ b) :
    items limit options go b (rounds + 1) read text =
      throw ⟨true, .mismatched, closer.closer :: rest⟩ := by
  rw [items, h, pure_bind]
  simp only [ofCloser?_closer, hb, if_false]

lemma items_form {c : Char} (h : atmosphere limit options text = pure ((), c :: rest))
    (hc : Bracket.ofCloser? c = none) :
    items limit options go b (rounds + 1) read text =
      go (c :: rest) >>= fun r => items limit options go b rounds (r.1 :: read) r.2 := by
  rw [items, h, pure_bind]
  simp only [hc]

lemma failsIn_end (hg : Gaps options gaps []) : FailsIn options b gaps .incomplete [] := by
  intro s read levels hs hl
  rw [run_gaps hs hg, run_nil, finish_between (between_skip hs gaps), if_neg (by simp [hl]),
    skip_position]

lemma failsIn_closer (hg : Gaps options gaps (closer.closer :: rest)) (hb : closer ≠ b) :
    FailsIn options b gaps .mismatched (closer.closer :: rest) := by
  intro s read levels hs hl
  rw [run_gaps hs hg, run_char (between_skip hs gaps) (.closer closer), accept, close, skip_levels,
    hl]
  simp only [hb.symm, if_false]
  rfl

lemma failsIn_form {part : List Char} {kind : SyntaxFault.Kind}
    (hg : Gaps options gaps (part ++ rest)) (hne : part ++ rest ≠ [])
    (hc : Clear options (part ++ rest)) (hnot : ¬ IsCloser (part ++ rest))
    (h : Fails options part kind rest) : FailsIn options b (gaps ++ part) kind rest := by
  intro s read levels hs hl
  have hdue : Due options (s.skip gaps) (part ++ rest) :=
    ⟨between_skip hs gaps, hne, hc, fun h => absurd h hnot⟩
  rw [List.append_assoc, run_gaps hs hg, h _ hdue, skip_position, size_append, Nat.add_assoc]

lemma failsIn_cons {cs part : List Char} {v : Value} {kind : SyntaxFault.Kind}
    (hg : Gaps options gaps (cs ++ (part ++ rest))) (hf : Form options cs v (part ++ rest))
    (h : FailsIn options b part kind rest) :
    FailsIn options b (gaps ++ (cs ++ part)) kind rest := by
  intro s read levels hs hl
  rw [List.append_assoc, List.append_assoc, run_gaps hs hg, run_form hf _ (between_skip hs gaps),
    begin_of_levels (by simp [hl]), deliver_list (s := s.skip gaps) hl v,
    h _ (v :: read) levels rfl rfl]
  simp [Nat.add_assoc]

lemma not_isCloser {c : Char} (h : Bracket.ofCloser? c = none) : ¬ IsCloser (c :: rest) := by
  rintro ⟨b, rest, he⟩
  simp [(List.cons.inj he).1, ofCloser?_closer] at h

lemma yields_form {c : Char}
    (ha : atmosphere limit options (gaps ++ c :: rest) = pure ((), c :: rest))
    (hg : Gaps options gaps (c :: rest)) (hc : Clear options (c :: rest))
    (hclose : Bracket.ofCloser? c = none)
    (hgo : Yields (Form options) (Fails options) (c :: rest) (go (c :: rest)))
    (ih : ∀ v behind, behind.length < (c :: rest).length →
      Yields (ReadsRest options b (v :: read)) (FailsIn options b) behind
        (items limit options go b rounds (v :: read) behind)) :
    Yields (ReadsRest options b read) (FailsIn options b) (gaps ++ c :: rest)
      (items limit options go b (rounds + 1) read (gaps ++ c :: rest)) := by
  have hitems : items limit options go b (rounds + 1) read (gaps ++ c :: rest) = _ :=
    items_form ha hclose
  have hnot : ¬ IsCloser (c :: rest) := not_isCloser hclose
  have hne : c :: rest ≠ [] := List.cons_ne_nil c rest
  generalize c :: rest = text at *
  cases hgo with
  | @obstacle part o he h hfail =>
    subst he
    rw [h, throw_bind] at hitems
    exact .obstacle (gaps ++ part) (by simp) hitems (failsIn_form hg hne hc hnot hfail)
  | @value form behind v he h hf =>
    subst he
    rw [h, pure_bind] at hitems
    have hpos := List.length_pos_iff.2 hf.ne_nil
    cases ih v behind (by rw [List.length_append]; omega) with
    | @obstacle part o hb h hfail =>
      subst hb
      exact .obstacle (gaps ++ (form ++ part)) (by simp) (hitems.trans h)
        (failsIn_cons hg hf hfail)
    | @value part rest w hb h hread =>
      subst hb
      obtain ⟨vs, rfl, hvs⟩ := hread
      exact .value (gaps ++ (form ++ part)) (by simp) (hitems.trans h)
        ⟨v :: vs, by simp, .cons hg hf hvs⟩

lemma items_yields (hgo : ReadsBelow options bound go) (hlimit : bound ≤ limit)
    (ht : text.length < bound) (hr : text.length < rounds) :
    Yields (ReadsRest options b read) (FailsIn options b) text
      (items limit options go b rounds read text) := by
  -- every round reads a form, which leaves a shorter text for the rounds that remain
  induction rounds generalizing text read with
  | zero => omega
  | succ rounds ih =>
    obtain ⟨gaps, rest, rfl, hg, hc, ha⟩ :=
      exists_atmosphere options (ht.trans_le hlimit)
    match rest with
    | [] => exact .obstacle gaps (o := ⟨true, .incomplete, []⟩) rfl (items_end ha) (failsIn_end hg)
    | c :: rest =>
      have hlength : (c :: rest).length ≤ (gaps ++ c :: rest).length := by simp
      cases hclose : Bracket.ofCloser? c with
      | none =>
        exact yields_form ha hg hc hclose (hgo _ (by omega)) fun v behind hb =>
          ih (by omega) (by omega)
      | some closer =>
        obtain rfl := ofCloser?_eq_some hclose
        by_cases hb : closer = b
        · subst hb
          exact .value (gaps ++ [closer.closer]) (by simp) (items_close ha)
            ⟨[], by simp, .nil hg⟩
        · exact .obstacle gaps (o := ⟨true, .mismatched, closer.closer :: rest⟩) rfl
            (items_mismatched ha hb) (failsIn_closer hg hb)

lemma list_opener (b : Bracket) (text : List Char) :
    list limit options go (b.opener :: text) = items limit options go b limit [] text := by
  rw [list, one_cons (ofOpener?_opener b), pure_bind]

lemma list_yields (hgo : ReadsBelow options bound go) (hlimit : bound ≤ limit)
    (ht : text.length < bound) :
    Yields (Form options) (Fails options) (b.opener :: text)
      (list limit options go (b.opener :: text)) := by
  rw [list_opener]
  have hitems : Yields (ReadsRest options b []) (FailsIn options b) text
      (items limit options go b limit [] text) := items_yields hgo hlimit ht (ht.trans_le hlimit)
  cases hitems with
  | @value part rest v he h hread =>
    obtain ⟨vs, rfl, hvs⟩ := hread
    exact .value (b.opener :: part) (by rw [he]; rfl) h (.list hvs)
  | @obstacle part o he h hfail =>
    refine .obstacle (b.opener :: part) (by rw [he]; rfl) h fun s hs => ?_
    have hopen := between_skip (between_enter (s := s) (.list b [])) [b.opener]
    rw [List.cons_append, run_char hs.between (.opener b), accept, Except.bind,
      hfail _ [] s.levels hopen rfl, skip_position, Nat.add_assoc, ← size_append]
    rfl

lemma quote_cons (limit : ℕ) (options : Options) (go : Parser Value) (text : List Char) :
    quote limit options go ('\x27' :: text) =
    atmosphere limit options text >>= fun r =>
      if r.2.isEmpty then throw ⟨true, .incomplete, r.2⟩
      else go r.2 >>= fun r => pure (r.1.quoted, r.2) := by
  rw [quote, only_cons, pure_bind]

lemma fails_quote {part : List Char} {kind : SyntaxFault.Kind}
    (hg : Gaps options gaps (part ++ rest))
    (h : ∀ s : State, s.mode = .between → (∃ levels, s.levels = .quote :: levels) →
      run options s (part ++ rest) = .error ⟨kind, s.position + size part⟩) :
    Fails options ('\x27' :: (gaps ++ part)) kind rest := by
  intro s hs
  have hopen := between_skip (between_enter (s := s) .quote) ['\x27']
  rw [List.cons_append, run_char hs.between .quote, accept, Except.bind, List.append_assoc,
    run_gaps hopen hg, h _ (between_skip hopen gaps) ⟨s.levels, rfl⟩]
  simp [size_cons, Nat.add_assoc]
  rfl

lemma quote_yields (hgo : ReadsBelow options bound go) (hlimit : bound ≤ limit)
    (ht : text.length < bound) :
    Yields (Form options) (Fails options) ('\x27' :: text)
      (quote limit options go ('\x27' :: text)) := by
  obtain ⟨gaps, rest, rfl, hg, hc, ha⟩ :=
    exists_atmosphere options (ht.trans_le hlimit)
  have hquote := quote_cons limit options go (gaps ++ rest)
  rw [ha, pure_bind] at hquote
  by_cases hne : rest = []
  · subst hne
    refine .obstacle ('\x27' :: (gaps ++ [])) (o := ⟨true, .incomplete, []⟩) (by simp)
      hquote (fails_quote hg fun s hs ⟨levels, hl⟩ => ?_)
    rw [List.append_nil, run_nil, finish_between hs, if_neg (by simp [hl])]
    rfl
  · rw [if_neg (by simpa using hne)] at hquote
    rw [List.length_append] at ht
    cases hgo rest (by omega) with
    | @value form behind v he h hf =>
      subst he
      rw [h, pure_bind] at hquote
      exact .value ('\x27' :: (gaps ++ form)) (by simp) hquote (.quote hg hf)
    | @obstacle part o he h hfail =>
      subst he
      rw [h, throw_bind] at hquote
      refine .obstacle ('\x27' :: (gaps ++ part)) (by simp) hquote
        (fails_quote hg fun s hs ⟨levels, hl⟩ => hfail s ⟨hs, hne, hc, ?_⟩)
      simp [hl]

lemma construct_opener (b : Bracket) (text : List Char) :
    construct limit options go (b.opener :: text) = list limit options go (b.opener :: text) := by
  cases b <;> rfl

lemma construct_closer (b : Bracket) (text : List Char) :
    construct limit options go (b.closer :: text) =
      throw ⟨true, .unexpected, b.closer :: text⟩ := by
  cases b <;> rfl

lemma construct_other {c : Char} (h : c ∉ delimiters) (text : List Char) :
    construct limit options go (c :: text) = atom (c :: text) := by
  have hopen := ofOpener?_eq_none h
  have hclose := ofCloser?_eq_none h
  simp only [delimiters, List.mem_cons, List.not_mem_nil, or_false, not_or] at h
  simp [construct, hopen, hclose, h]

lemma fails_closer (b : Bracket) (text : List Char) :
    Fails options [] .unexpected (b.closer :: text) := by
  intro s hs
  have hclose : s.close b = .error ⟨.unexpected, s.position⟩ := by
    rw [close]
    split
    · next hl => exact absurd hl (hs.not_closer ⟨b, text, rfl⟩ _ _ _)
    · rfl
  rw [List.nil_append, run_char hs.between (.closer b), accept, hclose]
  rfl

lemma construct_yields (hgo : ReadsBelow options bound go) (hlimit : bound ≤ limit)
    (ht : text.length ≤ bound) :
    Yields (Form options) (Fails options) text (construct limit options go text) := by
  match text with
  | [] =>
    exact .obstacle [] (o := ⟨true, .incomplete, []⟩) rfl rfl
      fun s hs => absurd rfl hs.ne_nil
  | c :: cs =>
    have hother (h : c ∉ delimiters) : Yields (Form options) (Fails options) (c :: cs)
        (construct limit options go (c :: cs)) := by
      rw [construct_other h]
      exact atom_yields h cs
    -- gaps do not begin a form: they come to an atom, which refuses them
    rcases char_cases c with hs | rfl | rfl | rfl | ⟨b, rfl⟩ | ⟨b, rfl⟩ | ⟨hb, _⟩ | htoken
    · exact hother (not_mem_delimiters (Text.isBlank_of_isSpace (isSpace_iff.2 hs)))
    · refine .obstacle [] (o := ⟨true, .invalid, ';' :: cs⟩) rfl rfl fun s hs => ?_
      exact run_stuck hs.between (.stray (.inl ⟨rfl, (hs.clear ';' rfl).2 rfl⟩))
    · exact string_yields options cs
    · exact quote_yields hgo hlimit ht
    · rw [construct_opener]
      exact list_yields hgo hlimit ht
    · exact .obstacle [] (o := ⟨true, .unexpected, b.closer :: cs⟩) rfl
        (construct_closer b cs) (fails_closer b cs)
    · exact hother (not_mem_delimiters hb)
    · exact hother (isTokenChar_iff.1 htoken).2

end

/-! Whole texts. -/

lemma readsBelow_nested {depth : ℕ} (h : depth ≤ limit) :
    ReadsBelow options depth (nested limit options depth) := by
  -- a form begins with a character of its own, so the forms in it are shorter
  induction depth with
  | zero => exact fun text ht => absurd ht (Nat.not_lt_zero _)
  | succ depth ih =>
    have hbound : depth ≤ limit := by omega
    exact fun text ht => construct_yields (ih hbound) hbound (Nat.le_of_lt_succ ht)

lemma form_yields (options : Options) {text : List Char} (h : text.length < limit) :
    Yields (Form options) (Fails options) text (form limit options text) :=
  readsBelow_nested le_rfl text h

section

variable {whole text rest : List Char} {read : List (ℕ × Value)} {rounds : ℕ}

lemma topLevel_end (h : atmosphere limit options text = pure ((), [])) :
    topLevel limit options whole (rounds + 1) read text = pure (read.reverse, []) := by
  rw [topLevel, h, pure_bind]
  rfl

lemma topLevel_obstacle {o : Obstacle} (h : atmosphere limit options text = pure ((), rest))
    (hne : rest ≠ []) (hf : form limit options rest = throw o) :
    topLevel limit options whole (rounds + 1) read text = throw o := by
  rw [topLevel, h, pure_bind]
  simp only [List.isEmpty_eq_false_iff.2 hne, Bool.false_eq_true, if_false, hf, throw_bind]

lemma topLevel_form {v : Value} {behind : List Char} {offset : ℕ}
    (h : atmosphere limit options text = pure ((), rest)) (hne : rest ≠ [])
    (hf : form limit options rest = pure (v, behind)) (ho : offset + size rest = size whole) :
    topLevel limit options whole (rounds + 1) read text =
      topLevel limit options whole rounds ((offset, v) :: read) behind := by
  have hminus : minus? (extent whole) (extent rest) = some offset := by
    rw [extent_eq, extent_eq, ← ho, minus?_add]
  rw [topLevel, h, pure_bind]
  simp only [List.isEmpty_eq_false_iff.2 hne, Bool.false_eq_true, if_false, hf, pure_bind, hminus]
  rfl

lemma exists_behind_form {gaps part behind : List Char} {v : Value} (hs : s.mode = .between)
    (hl : s.levels = []) (hg : Gaps options gaps (part ++ behind))
    (hf : Form options part v behind) :
    ∃ t : State, t.mode = .between ∧ t.levels = [] ∧
      t.position = s.position + size gaps + size part ∧
      t.forms = (s.position + size gaps, v) :: s.forms ∧
      run options s (gaps ++ (part ++ behind)) = run options t behind := by
  have hlevels : (s.skip gaps).levels = [] := hl
  rw [run_gaps hs hg, run_form hf _ (between_skip hs gaps), deliver_top hlevels]
  refine ⟨_, ?_, ?_, ?_, ?_, rfl⟩
  · rfl
  · exact hl
  · rfl
  · rfl

lemma topLevel_yields (hs : s.mode = .between) (hl : s.levels = [])
    (hp : s.position + size text = size whole) (ht : text.length < limit)
    (hr : text.length < rounds) :
    Yields (fun _ fs rest => rest = [] ∧ run options s text = .ok fs)
      (fun part kind _ => run options s text = .error ⟨kind, s.position + size part⟩) text
      (topLevel limit options whole rounds s.forms text) := by
  -- the state is the one between two top-level forms, and its position gives their offsets
  induction rounds generalizing s text with
  | zero => omega
  | succ rounds ih =>
    obtain ⟨gaps, rest, rfl, hg, hc, ha⟩ := exists_atmosphere options ht
    rw [List.length_append] at ht hr
    have hbetween := between_skip hs gaps
    by_cases hne : rest = []
    · subst hne
      refine .value _ rfl (topLevel_end ha) ⟨rfl, ?_⟩
      rw [run_gaps hs hg, run_nil, finish_between hbetween, skip_levels, if_pos hl, skip_forms]
    · have hlt : rest.length < limit := by omega
      cases form_yields options hlt with
      | @obstacle part o he hf hfail =>
        subst he
        have hdue : Due options (s.skip gaps) (part ++ o.rest) :=
          ⟨hbetween, hne, hc, fun _ => by simp [hl]⟩
        refine .obstacle (gaps ++ part) (by simp) (topLevel_obstacle ha hne hf) ?_
        rw [run_gaps hs hg, hfail _ hdue, skip_position, size_append, Nat.add_assoc]
      | @value part behind v he hf hform =>
        subst he
        have hpos := List.length_pos_iff.2 hform.ne_nil
        obtain ⟨t, htmode, htlevels, htpos, htforms, hrun⟩ := exists_behind_form hs hl hg hform
        simp only [size_append] at hp
        have hoffset : s.position + size gaps + size (part ++ behind) = size whole := by
          rw [size_append]
          omega
        have htop : topLevel limit options whole (rounds + 1) s.forms _ = _ :=
          topLevel_form ha hne hf hoffset
        rw [← htforms] at htop
        rw [List.length_append] at ht hr
        have hwhole : t.position + size behind = size whole := by omega
        cases ih htmode htlevels hwhole (by omega) (by omega) with
        | @value part' rest fs hb h hgood =>
          refine .value (gaps ++ (part ++ part')) (by rw [hb]; simp) (htop.trans h) ?_
          exact ⟨hgood.1, hrun.trans hgood.2⟩
        | @obstacle part' o hb h hbad =>
          refine .obstacle (gaps ++ (part ++ part')) (by rw [hb]; simp) (htop.trans h) ?_
          rw [hrun, hbad, htpos, size_append, size_append, Nat.add_assoc, Nat.add_assoc]

lemma topLevel_initial (options : Options) (h : text.length < limit) :
    Yields (fun _ fs rest => rest = [] ∧ run options initial text = .ok fs)
      (fun part kind _ => run options initial text = .error ⟨kind, size part⟩) text
      (topLevel limit options text limit [] text) := by
  have hp : initial.position + size text = size text := Nat.zero_add _
  simpa [initial] using topLevel_yields (s := initial) rfl rfl hp h h

lemma forms_of_value {fs : List (ℕ × Value)}
    (h : topLevel limit options text limit [] text = pure (fs, rest)) :
    forms limit options text = some (.ok fs) := by
  rw [forms, h]
  rfl

lemma forms_of_obstacle {o : Obstacle} {part : List Char}
    (h : topLevel limit options text limit [] text = throw o) (he : text = part ++ o.rest) :
    forms limit options text = some (.error ⟨o.kind, size part⟩) := by
  have hminus : minus? (extent text) (extent o.rest) = some (size part) := by
    rw [he, extent_eq, extent_eq, size_append, minus?_add]
  rw [forms, h, ExceptT.run_throw, pure_bind]
  simp only [hminus]
  rfl

theorem forms_eq (h : text.length < limit) :
    forms limit options text = some (Reader.forms options text) := by
  have hrun : Reader.forms options text = run options initial text := rfl
  cases topLevel_initial options h with
  | value _ _ htop hgood => rw [forms_of_value htop, hrun, hgood.2]
  | @obstacle part o he htop hbad =>
    rw [forms_of_obstacle htop he, hrun, hbad]

end

theorem readForms_eq {label : Option String} {source : String} (h : source.toList.length < limit) :
    readForms limit options label source = some (Reader.readForms options label source) := by
  rw [readForms, forms_eq h]
  rfl

end Lisplet.Reader.Descent

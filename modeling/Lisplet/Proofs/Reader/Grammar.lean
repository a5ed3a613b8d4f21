import Lisplet.Proofs.Reader.Reading

/-! The grammar of source text. Each rule relates a piece of text to what it denotes, in front of
the rest of the text. Whatever the grammar allows is read. -/

namespace Lisplet.Reader

open State

variable (options : Options)

inductive Gaps : List Char → List Char → Prop
  | nil {rest : List Char} : Gaps [] rest
  | cons {gap gaps rest : List Char} : Spells options gap .gap (gaps ++ rest) → Gaps gaps rest →
      Gaps (gap ++ gaps) rest

mutual

inductive Form : List Char → Value → List Char → Prop
  | atom {cs rest : List Char} {v : Value} : Spells options cs (.atom v) rest → Form cs v rest
  | list {b : Bracket} {cs rest : List Char} {vs : List Value} : Items b cs vs rest →
      Form (b.opener :: cs) (.ofList vs) rest
  | quote {gaps cs rest : List Char} {v : Value} : Gaps options gaps (cs ++ rest) →
      Form cs v rest →
      Form ('\x27' :: (gaps ++ cs)) (.ofList [.symbol "quote", v]) rest

inductive Items : Bracket → List Char → List Value → List Char → Prop
  | nil {b : Bracket} {gaps rest : List Char} : Gaps options gaps (b.closer :: rest) →
      Items b (gaps ++ [b.closer]) [] rest
  | cons {b : Bracket} {gaps cs more rest : List Char} {v : Value} {vs : List Value} :
      Gaps options gaps (cs ++ (more ++ rest)) → Form cs v (more ++ rest) → Items b more vs rest →
      Items b (gaps ++ (cs ++ more)) (v :: vs) rest

end

inductive Forms : Nat → List Char → List (Nat × Value) → Prop
  | nil {offset : Nat} {gaps : List Char} : Gaps options gaps [] → Forms offset gaps []
  | cons {offset : Nat} {gaps cs rest : List Char} {v : Value} {fs : List (Nat × Value)} :
      Gaps options gaps (cs ++ rest) → Form options cs v rest →
      Forms (offset + size gaps + size cs) rest fs →
      Forms offset (gaps ++ (cs ++ rest)) ((offset + size gaps, v) :: fs)

variable {options} {s : State}

lemma run_gaps {gaps rest : List Char} (hs : s.mode = .between) (h : Gaps options gaps rest) :
    run options s (gaps ++ rest) = run options (s.skip gaps) rest := by
  induction h generalizing s with
  | nil => rfl
  | cons hg _ ih =>
    rw [List.append_assoc, run_lexeme hs hg, accept, Except.bind, ih (between_skip hs _), skip_skip]

lemma begin_of_levels (h : s.levels ≠ []) : s.begin = s := by
  rw [begin, if_neg (by simpa using h)]

lemma deliver_list {b : Bracket} {items : List Value} {levels : List Level}
    (h : s.levels = .list b items :: levels) (v : Value) :
    s.deliver v = { s with mode := .between, levels := .list b (v :: items) :: levels } := by
  rw [deliver, h]
  rfl

lemma deliver_top (h : s.levels = []) (v : Value) :
    s.begin.deliver v =
      { s with mode := .between, start := s.position, forms := (s.position, v) :: s.forms } := by
  rw [begin, deliver, if_pos (by simpa using h), h]
  rfl

lemma close_list {b : Bracket} {items : List Value} {levels : List Level}
    (h : s.levels = .list b items :: levels) :
    s.close b = .ok ({ s with levels := levels }.deliver (.ofList items.reverse)) := by
  rw [close, h]
  exact if_pos rfl

def ReadsForm (options : Options) (cs : List Char) (v : Value) (rest : List Char) : Prop :=
  ∀ s : State, s.mode = .between →
    run options s (cs ++ rest) = run options ((s.begin.deliver v).skip cs) rest

def ReadsItems (options : Options) (b : Bracket) (cs : List Char) (vs : List Value)
    (rest : List Char) : Prop :=
  ∀ (s : State) (items : List Value) (levels : List Level), s.mode = .between →
    s.levels = .list b items :: levels →
    run options s (cs ++ rest) =
      run options (({ s with levels := levels }.deliver (.ofList (items.reverse ++ vs))).skip cs)
        rest

lemma readsForm_atom {cs rest : List Char} {v : Value} (h : Spells options cs (.atom v) rest) :
    ReadsForm options cs v rest := by
  intro s hs
  rw [run_lexeme hs h]
  rfl

lemma readsForm_list {b : Bracket} {cs rest : List Char} {vs : List Value}
    (h : ReadsItems options b cs vs rest) :
    ReadsForm options (b.opener :: cs) (.ofList vs) rest := by
  intro s hs
  have ht := between_skip (between_enter (s := s) (.list b [])) [b.opener]
  rw [List.cons_append, run_char hs (.opener b), accept, Except.bind, h _ [] s.levels ht rfl,
    skip_cons b.opener cs]
  rfl

lemma readsForm_quote {gaps cs rest : List Char} {v : Value} (hg : Gaps options gaps (cs ++ rest))
    (h : ReadsForm options cs v rest) :
    ReadsForm options ('\x27' :: (gaps ++ cs)) v.quoted rest := by
  intro s hs
  have ht := between_skip (between_enter (s := s) .quote) ['\x27']
  rw [List.cons_append, run_char hs .quote, accept, Except.bind, List.append_assoc,
    run_gaps ht hg, h _ (between_skip ht gaps), begin_of_levels (by simp [enter]),
    skip_cons '\x27' (gaps ++ cs), skip_append]
  rfl

lemma readsItems_nil {b : Bracket} {gaps rest : List Char}
    (hg : Gaps options gaps (b.closer :: rest)) :
    ReadsItems options b (gaps ++ [b.closer]) [] rest := by
  intro s items levels hs hl
  rw [List.append_assoc, List.singleton_append, run_gaps hs hg,
    run_char (between_skip hs gaps) (.closer b), accept, close_list (s := s.skip gaps) hl,
    Except.bind, skip_append, List.append_nil]
  rfl

lemma readsItems_cons {b : Bracket} {gaps cs more rest : List Char} {v : Value} {vs : List Value}
    (hg : Gaps options gaps (cs ++ (more ++ rest))) (hf : ReadsForm options cs v (more ++ rest))
    (h : ReadsItems options b more vs rest) :
    ReadsItems options b (gaps ++ (cs ++ more)) (v :: vs) rest := by
  intro s items levels hs hl
  rw [List.append_assoc, List.append_assoc, run_gaps hs hg, hf _ (between_skip hs gaps),
    begin_of_levels (by simp [hl]), deliver_list (s := s.skip gaps) hl v, h _ (v :: items) levels
    rfl rfl, skip_append, skip_append, List.reverse_cons, List.append_assoc]
  rfl

mutual

theorem run_form {cs rest : List Char} {v : Value} :
    Form options cs v rest → ReadsForm options cs v rest
  | .atom h => readsForm_atom h
  | .list h => readsForm_list (run_items h)
  | .quote hg h => readsForm_quote hg (run_form h)

theorem run_items {b : Bracket} {cs rest : List Char} {vs : List Value} :
    Items options b cs vs rest → ReadsItems options b cs vs rest
  | .nil hg => readsItems_nil hg
  | .cons hg hf h => readsItems_cons hg (run_form hf) (run_items h)

end

theorem run_forms {text : List Char} {fs : List (Nat × Value)} {offset : Nat}
    (hs : s.mode = .between) (hl : s.levels = []) (hp : s.position = offset)
    (h : Forms options offset text fs) : run options s text = .ok (s.forms.reverse ++ fs) := by
  induction h generalizing s with
  | @nil offset gaps hg =>
    rw [← List.append_nil gaps, run_gaps hs hg, run_nil, finish_between (between_skip hs gaps)]
    simp [hl]
  | @cons offset gaps cs rest v fs hg hf _ ih =>
    subst hp
    have ht : (s.skip gaps).levels = [] := hl
    rw [run_gaps hs hg, run_form hf _ (between_skip hs gaps), deliver_top ht, ih]
    · simp
    · rfl
    · exact hl
    · rfl

end Lisplet.Reader

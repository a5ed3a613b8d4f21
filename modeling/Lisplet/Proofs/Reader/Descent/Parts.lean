import Lisplet.Proofs.Reader.Recognition
import Lisplet.Reader.Descent

/-! Reading gaps, atoms and strings by recursive descent, against the lexemes of source text. -/

namespace Lisplet.Reader.Descent

open State

variable {α β : Type} {options : Options} {limit : ℕ}

/-! Lengths and cuts. -/

@[simp] lemma extent_eq (text : List Char) : extent text = size text :=
  String.utf8ByteSize_ofList text

lemma minus?_add (m n : ℕ) : minus? (m + n) n = some m := by
  simp [minus?]

lemma dropBytes?_zero (text : List Char) : dropBytes? text 0 = some text := by
  cases text <;> rfl

lemma dropBytes?_append (front rest : List Char) :
    dropBytes? (front ++ rest) (size front) = some rest := by
  induction front with
  | nil => exact dropBytes?_zero rest
  | cons c front ih =>
    obtain ⟨n, hn⟩ := Nat.exists_eq_succ_of_ne_zero (size_pos (List.cons_ne_nil c front)).ne'
    rw [List.cons_append, hn, dropBytes?, ← hn, size_cons, if_pos (Nat.le_add_right ..),
      Nat.add_sub_cancel_left, ih]
    exact nofun

lemma dropBytes?_char (c : Char) (rest : List Char) :
    dropBytes? (c :: rest) c.utf8Size = some rest := by
  simpa [size_cons] using dropBytes?_append [c] rest

/-! Results. -/

/-- Reading from the front of a text has a result: a value for a part of the text, or an obstacle
behind a part of it. -/
inductive Yields (good : List Char → α → List Char → Prop)
    (bad : List Char → SyntaxFault.Kind → List Char → Prop) (text : List Char)
    (r : Reading (α × List Char)) : Prop
  | value (part : List Char) {rest : List Char} {v : α} : text = part ++ rest →
      r = pure (v, rest) → good part v rest → Yields good bad text r
  | obstacle (part : List Char) {o : Obstacle} : text = part ++ o.rest → r = throw o →
      bad part o.kind o.rest → Yields good bad text r

lemma throw_bind (o : Obstacle) (f : α → Reading β) : (throw o : Reading α) >>= f = throw o := rfl

lemma one_cases (f : Char → Option α) (text : List Char) :
    (∃ c a rest, text = c :: rest ∧ f c = some a ∧ one f text = pure (a, rest)) ∨
      one f text = throw ⟨false, .invalid, text⟩ := by
  match text with
  | [] => exact .inr rfl
  | c :: rest =>
    cases h : f c with
    | some a => exact .inl ⟨c, a, rest, rfl, h, by rw [one, h]⟩
    | none => exact .inr (by rw [one, h])

lemma one_cons {f : Char → Option α} {c : Char} {a : α} (h : f c = some a) (rest : List Char) :
    one f (c :: rest) = pure (a, rest) := by
  rw [one, h]

lemma only_cons (c : Char) (rest : List Char) : only c (c :: rest) = pure (c, rest) :=
  one_cons (by simp [Option.guard]) rest

lemma takeSome_cons {p : Char → Bool} {c : Char} (h : p c = true) (cs : List Char) :
    takeSome p (c :: cs) = pure (c :: cs.takeWhile p, cs.dropWhile p) := by
  rw [takeSome, takeAll, pure_bind, List.takeWhile_cons_of_pos h, List.dropWhile_cons_of_pos h]
  rfl

lemma takeSome_other {p : Char → Bool} {text : List Char} (h : ∀ c ∈ text.head?, p c = false) :
    takeSome p text = throw ⟨false, .invalid, text⟩ := by
  cases text with
  | nil => rfl
  | cons c cs =>
    have hc : ¬ p c = true := by simp [h c rfl]
    rw [takeSome, takeAll, pure_bind, List.takeWhile_cons_of_neg hc]
    rfl

lemma dropWhile_head (p : Char → Bool) (cs : List Char) :
    ∀ c ∈ (cs.dropWhile p).head?, p c = false := by
  have h := List.head?_dropWhile_not p cs
  cases he : (cs.dropWhile p).head? with
  | none => simp
  | some c => simpa [he] using h

/-! Gaps. -/

def Clear (options : Options) (text : List Char) : Prop :=
  ∀ c ∈ text.head?, c ∉ spaces ∧ (c = ';' → options.comments = false)

lemma gaps_spaces {part gaps rest : List Char} (h : ∀ c ∈ part, c ∈ spaces)
    (hg : Gaps options gaps rest) : Gaps options (part ++ gaps) rest := by
  induction part with
  | nil => exact hg
  | cons c part ih =>
    have hc : Spells options [c] .gap (part ++ gaps ++ rest) := .space (h c (by simp))
    have hgaps := Gaps.cons hc (ih fun d hd => h d (by simp [hd]))
    exact hgaps

def IsGap (options : Options) (part rest : List Char) : Prop :=
  part ≠ [] ∧ ∀ gaps behind, rest = gaps ++ behind → Gaps options gaps behind →
    Gaps options (part ++ gaps) behind

lemma gap_space {c : Char} (h : Text.isSpace c = true) (cs : List Char) :
    gap options (c :: cs) = pure (c :: cs.takeWhile Text.isSpace, cs.dropWhile Text.isSpace) := by
  rw [gap]
  split
  · rw [either, takeSome_cons h]
    rfl
  · exact takeSome_cons h cs

lemma isGap_space {c : Char} (h : Text.isSpace c = true) (cs : List Char) :
    IsGap options (c :: cs.takeWhile Text.isSpace) (cs.dropWhile Text.isSpace) := by
  refine ⟨by simp, fun gaps behind _ hg => gaps_spaces (fun d hd => isSpace_iff.1 ?_) hg⟩
  rcases List.mem_cons.1 hd with rfl | hd
  · exact h
  · exact List.all_eq_true.1 List.all_takeWhile d hd

lemma gap_comment (hc : options.comments = true) (cs : List Char) :
    gap options (';' :: cs) = pure (';' :: cs.takeWhile (· != '\n'), cs.dropWhile (· != '\n')) := by
  have hs : takeSome Text.isSpace (';' :: cs) = throw ⟨false, .invalid, ';' :: cs⟩ :=
    takeSome_other (by simp [Text.isSpace])
  rw [gap, if_pos hc, either, hs, comment, only_cons]
  rfl

lemma isGap_comment (hc : options.comments = true) (cs : List Char) :
    IsGap options (';' :: cs.takeWhile (· != '\n')) (cs.dropWhile (· != '\n')) := by
  refine ⟨by simp, fun gaps behind hr hg => .cons (.comment hc (fun hn => ?_) ?_) hg⟩
  · simpa using List.all_eq_true.1 List.all_takeWhile _ hn
  · rw [← hr]
    cases h : cs.dropWhile (· != '\n') with
    | nil => trivial
    | cons c rest => simpa [h, EndsLine] using dropWhile_head (· != '\n') cs

lemma gap_other {text : List Char} (hs : ∀ c ∈ text.head?, c ∉ spaces)
    (hc : ∀ c ∈ text.head?, c = ';' → options.comments = false) :
    gap options text = throw ⟨false, .invalid, text⟩ := by
  have ht : takeSome Text.isSpace text = throw ⟨false, .invalid, text⟩ :=
    takeSome_other fun c h => Bool.eq_false_iff.2 fun hc => hs c h (isSpace_iff.1 hc)
  cases ho : options.comments with
  | false => rw [gap, if_neg (by simp [ho]), ht]
  | true =>
    have hcomment : comment text = throw ⟨false, .invalid, text⟩ := by
      rcases one_cases (Option.guard (· == ';')) text with ⟨c, d, rest, rfl, hd, _⟩ | h
      · have hsemi : c = ';' := by simpa using (Option.guard_eq_some_iff.1 hd).2
        simp [hc c rfl hsemi] at ho
      · rw [comment, only, h]
        rfl
    rw [gap, if_pos ho, either, ht]
    exact hcomment

lemma gap_cases (options : Options) (text : List Char) :
    (∃ part cs rest, text = part ++ rest ∧ gap options text = pure (cs, rest) ∧
      IsGap options part rest) ∨
    gap options text = throw ⟨false, .invalid, text⟩ ∧ Clear options text := by
  match text with
  | [] => exact .inr ⟨gap_other (by simp) (by simp), by simp [Clear]⟩
  | c :: cs =>
    by_cases hs : c ∈ spaces
    · have h := isSpace_iff.2 hs
      exact .inl ⟨_, _, _, by simp, gap_space h cs, isGap_space h cs⟩
    by_cases hc : c = ';' ∧ options.comments = true
    · obtain ⟨rfl, hc⟩ := hc
      exact .inl ⟨_, _, _, by simp, gap_comment hc cs, isGap_comment hc cs⟩
    · have hclear : Clear options (c :: cs) := by simpa [Clear, hs] using hc
      exact .inr ⟨gap_other (fun d hd => (hclear d hd).1) (fun d hd => (hclear d hd).2), hclear⟩

lemma many_gaps (options : Options) {rounds : ℕ} {text : List Char} (h : text.length < rounds) :
    ∃ gaps rest, text = gaps ++ rest ∧ Gaps options gaps rest ∧ Clear options rest ∧
      many (gap options) rounds text = pure rest := by
  induction rounds generalizing text with
  | zero => omega
  | succ rounds ih =>
    rcases gap_cases options text with ⟨part, cs, rest, rfl, hgap, hne, hpart⟩ | ⟨hgap, hc⟩
    · have hpos := List.length_pos_iff.2 hne
      have hlt : rest.length < rounds := by
        rw [List.length_append] at h
        omega
      obtain ⟨gaps, behind, rfl, hg, hc, hm⟩ := ih hlt
      refine ⟨part ++ gaps, behind, by simp, hpart gaps behind rfl hg, hc, ?_⟩
      have hsize : ¬ extent (gaps ++ behind) = extent (part ++ (gaps ++ behind)) := by
        have := size_pos hne
        simp
        omega
      rw [many, hgap]
      exact (if_neg hsize).trans hm
    · refine ⟨[], text, rfl, .nil, hc, ?_⟩
      rw [many, hgap]
      rfl

lemma exists_atmosphere (options : Options) {text : List Char} (h : text.length < limit) :
    ∃ gaps rest, text = gaps ++ rest ∧ Gaps options gaps rest ∧ Clear options rest ∧
      atmosphere limit options text = pure ((), rest) := by
  obtain ⟨gaps, rest, ht, hg, hc, hm⟩ := many_gaps options h
  exact ⟨gaps, rest, ht, hg, hc, by rw [atmosphere, hm]; rfl⟩

/-! Atoms. -/

/-- Texts at which a form is due in a state: no gap begins them, and no closer that ends a list. -/
structure Due (options : Options) (s : State) (text : List Char) : Prop where
  between : s.mode = .between
  ne_nil : text ≠ []
  clear : Clear options text
  not_closer : IsCloser text → ∀ b read levels, s.levels ≠ .list b read :: levels

def Fails (options : Options) (part : List Char) (kind : SyntaxFault.Kind) (rest : List Char) :
    Prop :=
  ∀ s : State, Due options s (part ++ rest) →
    run options s (part ++ rest) = .error ⟨kind, s.position + size part⟩

lemma fails_stuck {part rest : List Char} {kind : SyntaxFault.Kind}
    (h : Stuck options part rest kind) : Fails options part kind rest :=
  fun _ hs => run_stuck hs.between h

lemma atom_other {text : List Char} (h : ∀ c ∈ text.head?, isTokenChar c = false) :
    atom text = throw ⟨false, .invalid, text⟩ := by
  rw [atom, takeSome_other h]
  rfl

lemma atom_token (options : Options) {c : Char} (h : isTokenChar c = true) (cs : List Char) :
    Yields (Form options) (Fails options) (c :: cs) (atom (c :: cs)) := by
  have ht : ∀ d ∈ c :: cs.takeWhile isTokenChar, isTokenChar d = true := by
    intro d hd
    rcases List.mem_cons.1 hd with rfl | hd
    · exact h
    · exact List.all_eq_true.1 List.all_takeWhile d hd
  have hr : EndsToken (cs.dropWhile isTokenChar) := by
    cases hrest : cs.dropWhile isTokenChar with
    | nil => trivial
    | cons d rest => simpa [hrest, EndsToken] using dropWhile_head isTokenChar cs
  have htext : c :: cs = (c :: cs.takeWhile isTokenChar) ++ cs.dropWhile isTokenChar := by simp
  cases ha : atom? (c :: cs.takeWhile isTokenChar) with
  | some v =>
    refine .value _ htext ?_ (.atom (.token (by simp) ht hr (atom?_eq_some_iff.1 ha)))
    rw [atom, takeSome_cons h, pure_bind]
    simp only [ha]
  | none =>
    have hv (v : Value) : ¬ Denotes (c :: cs.takeWhile isTokenChar) v :=
      fun hd => by simp [atom?_eq_some_iff.2 hd] at ha
    have hstuck : Stuck options [] (c :: cs) .invalid := by
      rw [htext]
      exact .token (by simp) ht hr hv
    refine .obstacle [] (o := ⟨true, .invalid, c :: cs⟩) rfl ?_ (fails_stuck hstuck)
    rw [atom, takeSome_cons h, pure_bind]
    simp only [ha]

lemma atom_yields {c : Char} (h : c ∉ delimiters) (cs : List Char) :
    Yields (Form options) (Fails options) (c :: cs) (atom (c :: cs)) := by
  cases ht : isTokenChar c with
  | true => exact atom_token options ht cs
  | false =>
    refine .obstacle [] (o := ⟨false, .invalid, c :: cs⟩) rfl
      (atom_other (by simpa using ht)) fun s hs => ?_
    have hb : Text.isBlank c = true := by
      by_contra hb
      simp [isTokenChar_iff.2 ⟨by simpa using hb, h⟩] at ht
    exact run_stuck hs.between (.stray (.inr ⟨hb, (hs.clear c rfl).1⟩))

/-! Strings. -/

lemma stringRest_literal {cs ds : List Char} (h : Literal cs ds) (chars rest : List Char) :
    stringRest chars (cs ++ rest) = stringRest (ds.reverse ++ chars) rest := by
  induction h generalizing chars with
  | nil => rfl
  | @plain c cs ds hq hb _ ih =>
    have hc : stringRest chars (c :: (cs ++ rest)) = stringRest (c :: chars) (cs ++ rest) := by
      rw [stringRest]
      · exact hq
      · exact fun _ _ hbad => absurd hbad hb
      · exact fun hbad => absurd hbad hb
    rw [List.cons_append, hc, ih, List.reverse_cons, List.append_assoc]
    rfl
  | @escape e d cs ds he _ ih =>
    rw [List.cons_append, List.cons_append, stringRest, unescape?_eq_some.2 he]
    simp only [ih, List.reverse_cons, List.append_assoc]
    rfl

lemma stringRest_unfinished {before after : List Char} {kind : SyntaxFault.Kind}
    (h : Unfinished before after kind) (chars : List Char) :
    stringRest chars (before ++ after) = throw ⟨true, kind, after⟩ := by
  cases h with
  | plain hl =>
    rw [stringRest_literal hl]
    rfl
  | backslash hl =>
    rw [List.append_nil, stringRest_literal hl]
    rfl
  | @escape _ _ rest e hl he =>
    have hn : Text.unescape? e = none :=
      Option.eq_none_iff_forall_ne_some.2 fun d hd => he d (unescape?_eq_some.1 hd)
    rw [stringRest_literal hl, stringRest, hn]

lemma string_cons (text : List Char) : string ('"' :: text) = stringRest [] text := by
  rw [string, only_cons, pure_bind]

lemma string_yields (options : Options) (text : List Char) :
    Yields (Form options) (Fails options) ('"' :: text) (string ('"' :: text)) := by
  rw [string_cons]
  rcases endsString text with ⟨body, ds, rest, rfl, hl⟩ | ⟨before, after, kind, rfl, hu⟩
  · have htext : '"' :: (body ++ '"' :: rest) = '"' :: (body ++ ['"']) ++ rest := by simp
    refine .value _ htext ?_ (.atom (.string hl))
    rw [stringRest_literal hl]
    simp [stringRest]
  · exact .obstacle ('"' :: before) (o := ⟨true, kind, after⟩) rfl
      (stringRest_unfinished hu []) (fails_stuck (.string hu))

end Lisplet.Reader.Descent

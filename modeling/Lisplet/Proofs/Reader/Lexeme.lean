import Lisplet.Proofs.Reader.Token
import Lisplet.Reader.Basic

/-! The lexemes of source text, with what may follow each of them, and the ways in which a text can
fail to begin with one. -/

namespace Lisplet.Reader

def spaces : List Char :=
  [' ', '\t', '\r', '\n']

def escapes : List (Char × Char) :=
  [('n', '\n'), ('t', '\t'), ('r', '\r'), ('\\', '\\'), ('"', '"')]

def Bracket.opener : Bracket → Char
  | .round => '('
  | .square => '['
  | .curly => '\x7b'

def Bracket.closer : Bracket → Char
  | .round => ')'
  | .square => ']'
  | .curly => '\x7d'

def EndsToken : List Char → Prop
  | [] => True
  | c :: _ => isTokenChar c = false

def EndsLine : List Char → Prop
  | [] => True
  | c :: _ => c = '\n'

inductive Literal : List Char → List Char → Prop
  | nil : Literal [] []
  | plain {c : Char} {cs ds : List Char} : c ≠ '"' → c ≠ '\\' → Literal cs ds →
      Literal (c :: cs) (c :: ds)
  | escape {e d : Char} {cs ds : List Char} : (e, d) ∈ escapes → Literal cs ds →
      Literal ('\\' :: e :: cs) (d :: ds)

inductive Lexeme where
  | gap
  | opener (bracket : Bracket)
  | closer (bracket : Bracket)
  | quote
  | atom (v : Value)

inductive Spells (options : Options) : List Char → Lexeme → List Char → Prop
  | space {c : Char} {rest : List Char} : c ∈ spaces → Spells options [c] .gap rest
  | comment {cs rest : List Char} : options.comments = true → '\n' ∉ cs → EndsLine rest →
      Spells options (';' :: cs) .gap rest
  | opener (b : Bracket) {rest : List Char} : Spells options [b.opener] (.opener b) rest
  | closer (b : Bracket) {rest : List Char} : Spells options [b.closer] (.closer b) rest
  | quote {rest : List Char} : Spells options ['\x27'] .quote rest
  | string {cs ds rest : List Char} : Literal cs ds →
      Spells options ('"' :: (cs ++ ['"'])) (.atom (.string (String.ofList ds))) rest
  | token {cs rest : List Char} {v : Value} : cs ≠ [] → (∀ c ∈ cs, isTokenChar c = true) →
      EndsToken rest → Denotes cs v → Spells options cs (.atom v) rest

inductive Unfinished : List Char → List Char → SyntaxFault.Kind → Prop
  | plain {cs ds : List Char} : Literal cs ds → Unfinished cs [] .incomplete
  | backslash {cs ds : List Char} : Literal cs ds → Unfinished (cs ++ ['\\']) [] .incomplete
  | escape {cs ds rest : List Char} {e : Char} : Literal cs ds → (∀ d, (e, d) ∉ escapes) →
      Unfinished cs ('\\' :: e :: rest) .invalid

def Stray (options : Options) (c : Char) : Prop :=
  c = ';' ∧ options.comments = false ∨ Text.isBlank c = true ∧ c ∉ spaces

/-- A text that begins with no lexeme, up to where this shows. -/
inductive Stuck (options : Options) : List Char → List Char → SyntaxFault.Kind → Prop
  | stray {c : Char} {rest : List Char} : Stray options c → Stuck options [] (c :: rest) .invalid
  | token {cs rest : List Char} : cs ≠ [] → (∀ c ∈ cs, isTokenChar c = true) → EndsToken rest →
      (∀ v, ¬ Denotes cs v) → Stuck options [] (cs ++ rest) .invalid
  | string {before after : List Char} {kind : SyntaxFault.Kind} : Unfinished before after kind →
      Stuck options ('"' :: before) after kind

variable {options : Options}

/-! Characters. -/

lemma isSpace_iff {c : Char} : Text.isSpace c = true ↔ c ∈ spaces := by
  simp [Text.isSpace, spaces, or_assoc]

lemma unescape?_eq_some {c d : Char} : Text.unescape? c = some d ↔ (c, d) ∈ escapes := by
  rw [Text.unescape?.eq_def]
  simp only [escapes, List.mem_cons, Prod.mk.injEq, List.not_mem_nil, or_false]
  split <;> simp_all [eq_comm]

lemma ofOpener?_eq_some {c : Char} {b : Bracket} (h : Bracket.ofOpener? c = some b) :
    c = b.opener := by
  rw [Bracket.ofOpener?.eq_def] at h
  split at h <;> cases h <;> rfl

lemma ofCloser?_eq_some {c : Char} {b : Bracket} (h : Bracket.ofCloser? c = some b) :
    c = b.closer := by
  rw [Bracket.ofCloser?.eq_def] at h
  split at h <;> cases h <;> rfl

lemma ofOpener?_opener (b : Bracket) : Bracket.ofOpener? b.opener = some b := by
  cases b <;> rfl

lemma ofCloser?_closer (b : Bracket) : Bracket.ofCloser? b.closer = some b := by
  cases b <;> rfl

lemma ofOpener?_eq_none {c : Char} (h : c ∉ delimiters) : Bracket.ofOpener? c = none := by
  by_contra ho
  obtain ⟨b, hb⟩ := Option.ne_none_iff_exists'.1 ho
  rw [ofOpener?_eq_some hb] at h
  exact h (by cases b <;> decide)

lemma ofCloser?_eq_none {c : Char} (h : c ∉ delimiters) : Bracket.ofCloser? c = none := by
  by_contra hc
  obtain ⟨b, hb⟩ := Option.ne_none_iff_exists'.1 hc
  rw [ofCloser?_eq_some hb] at h
  exact h (by cases b <;> decide)

lemma not_mem_delimiters {c : Char} (h : Text.isBlank c = true) : c ∉ delimiters := by
  intro hd
  simp only [delimiters, List.mem_cons, List.not_mem_nil, or_false] at hd
  rcases hd with rfl | rfl | rfl | rfl | rfl | rfl | rfl | rfl | rfl <;> cases h

lemma isTokenChar_iff {c : Char} :
    isTokenChar c = true ↔ Text.isBlank c = false ∧ c ∉ delimiters := by
  simp [isTokenChar]

lemma isTokenChar_of_mem_spaces {c : Char} (h : c ∈ spaces) : isTokenChar c = false := by
  simp [isTokenChar, Text.isBlank_of_isSpace (isSpace_iff.2 h)]

lemma char_cases (c : Char) :
    c ∈ spaces ∨ c = ';' ∨ c = '"' ∨ c = '\x27' ∨ (∃ b : Bracket, c = b.opener) ∨
      (∃ b : Bracket, c = b.closer) ∨ (Text.isBlank c = true ∧ c ∉ spaces) ∨
      isTokenChar c = true := by
  by_cases hs : c ∈ spaces
  · exact .inl hs
  cases hb : Text.isBlank c with
  | true => simp [hs]
  | false =>
    by_cases hd : c ∈ delimiters
    · simp only [delimiters, List.mem_cons, List.not_mem_nil, or_false] at hd
      have hround : Bracket.round.opener = '(' ∧ Bracket.round.closer = ')' := ⟨rfl, rfl⟩
      have hsquare : Bracket.square.opener = '[' ∧ Bracket.square.closer = ']' := ⟨rfl, rfl⟩
      have hcurly : Bracket.curly.opener = '\x7b' ∧ Bracket.curly.closer = '\x7d' := ⟨rfl, rfl⟩
      grind
    · simp [isTokenChar_iff, hb, hd]

/-! Strings. -/

lemma Literal.append {cs ds cs' ds' : List Char} (h : Literal cs ds) (h' : Literal cs' ds') :
    Literal (cs ++ cs') (ds ++ ds') := by
  induction h with
  | nil => exact h'
  | plain hq hb _ ih => exact .plain hq hb ih
  | escape he _ ih => exact .escape he ih

lemma Unfinished.append {cs ds before after : List Char} {kind : SyntaxFault.Kind}
    (h : Literal cs ds) (hu : Unfinished before after kind) :
    Unfinished (cs ++ before) after kind := by
  cases hu with
  | plain hl => exact .plain (h.append hl)
  | backslash hl =>
    rw [← List.append_assoc]
    exact .backslash (h.append hl)
  | escape hl he => exact .escape (h.append hl) he

def EndsString (cs : List Char) : Prop :=
  (∃ body ds rest, cs = body ++ '"' :: rest ∧ Literal body ds) ∨
    ∃ before after kind, cs = before ++ after ∧ Unfinished before after kind

lemma EndsString.append {body ds cs : List Char} (h : Literal body ds) (hcs : EndsString cs) :
    EndsString (body ++ cs) := by
  rcases hcs with ⟨body', ds', rest, rfl, h'⟩ | ⟨before, after, kind, rfl, hu⟩
  · exact .inl ⟨body ++ body', ds ++ ds', rest, (List.append_assoc ..).symm, h.append h'⟩
  · exact .inr ⟨body ++ before, after, kind, (List.append_assoc ..).symm, hu.append h⟩

lemma endsString (cs : List Char) : EndsString cs := by
  match cs with
  | [] => exact .inr ⟨[], [], _, rfl, .plain .nil⟩
  | c :: [] =>
    by_cases hq : c = '"'
    · exact .inl ⟨[], [], [], by rw [hq]; rfl, .nil⟩
    by_cases hb : c = '\\'
    · exact .inr ⟨['\\'], [], _, by rw [hb]; rfl, .backslash .nil⟩
    exact .append (.plain hq hb .nil) (endsString [])
  | c :: e :: cs =>
    by_cases hq : c = '"'
    · exact .inl ⟨[], [], e :: cs, by rw [hq]; rfl, .nil⟩
    by_cases hb : c = '\\'
    · subst hb
      by_cases he : ∃ d, (e, d) ∈ escapes
      · obtain ⟨d, he⟩ := he
        exact .append (.escape he .nil) (endsString cs)
      · exact .inr ⟨[], '\\' :: e :: cs, _, rfl, .escape .nil fun d hd => he ⟨d, hd⟩⟩
    · exact .append (.plain hq hb .nil) (endsString (e :: cs))
termination_by cs.length

/-! Every text begins with a lexeme or is stuck. -/

lemma exists_token {c : Char} (cs : List Char) (hc : isTokenChar c = true) :
    ∃ token rest, c :: cs = token ++ rest ∧ token ≠ [] ∧ (∀ d ∈ token, isTokenChar d = true) ∧
      EndsToken rest := by
  refine ⟨(c :: cs).takeWhile isTokenChar, (c :: cs).dropWhile isTokenChar,
    List.takeWhile_append_dropWhile.symm, ?_, List.all_eq_true.1 List.all_takeWhile, ?_⟩
  · simp [hc]
  · cases h : (c :: cs).dropWhile isTokenChar with
    | nil => trivial
    | cons d rest =>
      have hd := List.head?_dropWhile_not isTokenChar (c :: cs)
      simpa [h, EndsToken] using hd

lemma exists_comment (cs : List Char) :
    ∃ comment rest, cs = comment ++ rest ∧ '\n' ∉ comment ∧ EndsLine rest := by
  induction cs with
  | nil => exact ⟨[], [], rfl, List.not_mem_nil, trivial⟩
  | cons c cs ih =>
    by_cases hc : c = '\n'
    · exact ⟨[], c :: cs, rfl, List.not_mem_nil, hc⟩
    · obtain ⟨comment, rest, rfl, hn, hr⟩ := ih
      exact ⟨c :: comment, rest, rfl, by simp [hn, Ne.symm hc], hr⟩

def Begins (options : Options) (text : List Char) : Prop :=
  ∃ cs x rest, text = cs ++ rest ∧ cs ≠ [] ∧ Spells options cs x rest

def Halts (options : Options) (text : List Char) : Prop :=
  ∃ before after kind, text = before ++ after ∧ Stuck options before after kind

lemma begins_or_halts_string (text : List Char) :
    Begins options ('"' :: text) ∨ Halts options ('"' :: text) := by
  rcases endsString text with ⟨body, ds, rest, rfl, h⟩ | ⟨before, after, kind, rfl, h⟩
  · exact .inl ⟨'"' :: (body ++ ['"']), _, rest, by simp, by simp, .string h⟩
  · exact .inr ⟨'"' :: before, after, kind, rfl, .string h⟩

lemma begins_or_halts_token {c : Char} (text : List Char) (hc : isTokenChar c = true) :
    Begins options (c :: text) ∨ Halts options (c :: text) := by
  obtain ⟨token, rest, h, hne, ht, hr⟩ := exists_token text hc
  rw [h]
  by_cases hv : ∃ v, Denotes token v
  · obtain ⟨v, hv⟩ := hv
    exact .inl ⟨token, _, rest, rfl, hne, .token hne ht hr hv⟩
  · exact .inr ⟨[], token ++ rest, _, rfl, .token hne ht hr fun v h => hv ⟨v, h⟩⟩

theorem begins_or_halts (c : Char) (text : List Char) :
    Begins options (c :: text) ∨ Halts options (c :: text) := by
  rcases char_cases c with hs | rfl | rfl | rfl | ⟨b, rfl⟩ | ⟨b, rfl⟩ | hb | ht
  · exact .inl ⟨[c], _, text, rfl, by simp, .space hs⟩
  · cases hc : options.comments with
    | true =>
      obtain ⟨comment, rest, rfl, hn, hr⟩ := exists_comment text
      exact .inl ⟨';' :: comment, _, rest, rfl, by simp, .comment hc hn hr⟩
    | false => exact .inr ⟨[], ';' :: text, _, rfl, .stray (.inl ⟨rfl, hc⟩)⟩
  · exact begins_or_halts_string text
  · exact .inl ⟨['\x27'], _, text, rfl, by simp, .quote⟩
  · exact .inl ⟨[b.opener], _, text, rfl, by simp, .opener b⟩
  · exact .inl ⟨[b.closer], _, text, rfl, by simp, .closer b⟩
  · exact .inr ⟨[], c :: text, _, rfl, .stray (.inr hb)⟩
  · exact begins_or_halts_token text ht

end Lisplet.Reader

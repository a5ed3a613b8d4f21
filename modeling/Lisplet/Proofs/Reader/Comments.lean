import Lisplet.Proofs.Reader.Faults
import Lisplet.Proofs.Reader.Regions

/-! Comments count as blanks. A reader that skips comments and a reader that knows no comments agree
on a text and the same text with its comments blanked. -/

namespace Lisplet.Reader

open State

def blankFrom : Region → List Char → List Char
  | _, [] => []
  | region, c :: cs =>
    (if region.next c = .comment then List.replicate c.utf8Size ' ' else [c]) ++
      blankFrom (region.next c) cs

def blanked (source : String) : String :=
  String.ofList (blankFrom .code source.toList)

def Mode.uncommented : Mode → Mode
  | .comment => .between
  | mode => mode

def State.uncommented (s : State) : State :=
  { s with mode := s.mode.uncommented }

variable {options : Options} {s t : State} {c : Char}

lemma uncommented_of_region (hs : s.mode.region ≠ .comment) : s.uncommented = s := by
  obtain ⟨position, mode, levels, start, forms⟩ := s
  cases mode with
  | comment => exact absurd rfl hs
  | _ => rfl

lemma blankFrom_comment {region : Region} (hc : region.next c = .comment) (cs : List Char) :
    blankFrom region (c :: cs) = List.replicate c.utf8Size ' ' ++ blankFrom .comment cs := by
  rw [blankFrom, if_pos hc, hc]

lemma blankFrom_other {region : Region} (hc : region.next c ≠ .comment) (cs : List Char) :
    blankFrom region (c :: cs) = c :: blankFrom (region.next c) cs := by
  rw [blankFrom, if_neg hc, List.singleton_append]

lemma size_replicate_space (n : ℕ) : size (List.replicate n ' ') = n := by
  induction n with
  | zero => rfl
  | succ n ih =>
    have hspace : ' '.utf8Size = 1 := rfl
    rw [List.replicate_succ, size_cons, ih, hspace, Nat.add_comm]

lemma run_spaces (hs : s.mode = .between) (n : ℕ) (rest : List Char) :
    run options s (List.replicate n ' ' ++ rest) =
      run options (s.skip (List.replicate n ' ')) rest := by
  induction n generalizing s with
  | zero => rfl
  | succ n ih =>
    have hspace : ' ' ∈ spaces := by simp [spaces]
    rw [List.replicate_succ, List.cons_append, run_between hs, dispatch_space hspace, Except.bind,
      ih (between_skip hs _), skip_skip]
    rfl

/-! One character. -/

lemma read_options {options' : Options} (h : s.mode.region = .code → c ≠ ';') :
    s.read options c = s.read options' c := by
  have hd (hs : s.mode.region = .code) (t : State) :
      t.dispatch options c = t.dispatch options' c := by
    rw [dispatch, dispatch, if_neg (h hs), if_neg (h hs)]
  rw [State.read.eq_def, State.read.eq_def]
  cases hs : s.mode with
  | between => exact hd (congrArg Mode.region hs) s
  | token start chars =>
    simp only [hd (congrArg Mode.region hs)]
  | _ => rfl

lemma read_uncommented (hc : s.mode.region.next c ≠ .comment) :
    s.uncommented.read ⟨false⟩ c = (s.read ⟨true⟩ c).map State.uncommented := by
  by_cases hs : s.mode.region = .comment
  · rw [hs] at hc
    obtain rfl : c = '\n' := by
      by_contra hn
      exact hc (if_neg hn)
    obtain ⟨position, mode, levels, start, forms⟩ := s
    cases mode with
    | comment => rfl
    | _ => cases hs
  · have hsemicolon : s.mode.region = .code → c ≠ ';' := by
      rintro hcode rfl
      rw [hcode] at hc
      exact hc rfl
    have hread : s.read ⟨false⟩ c = s.read ⟨true⟩ c := read_options hsemicolon
    rw [uncommented_of_region hs, hread]
    cases h : s.read ⟨true⟩ c with
    | error stop => rfl
    | ok t =>
      rw [← region_read h] at hc
      rw [Except.map, uncommented_of_region hc]

lemma run_blank (hc : s.mode.region.next c = .comment) (rest : List Char) :
    run ⟨false⟩ s.uncommented (List.replicate c.utf8Size ' ' ++ rest) =
      (s.read ⟨true⟩ c).bind fun t => run ⟨false⟩ (t.skip [c]).uncommented rest := by
  rcases next_eq_comment.1 hc with ⟨hs, rfl⟩ | ⟨hs, hn⟩
  · have hspace : ' ' ∈ spaces := by simp [spaces]
    have hblank : List.replicate ';'.utf8Size ' ' = [' '] := rfl
    rw [uncommented_of_region (by simp [hs]), hblank, List.singleton_append, run_cons,
      read_code hs rfl, read_code hs rfl]
    cases ht : s.settle with
    | error stop => rfl
    | ok t =>
      have hmode := settle_mode hs ht
      rw [Except.bind, Except.bind, dispatch_space hspace]
      obtain ⟨position, mode, levels, start, forms⟩ := t
      cases hmode
      rfl
  · obtain ⟨position, mode, levels, start, forms⟩ := s
    cases mode with
    | comment =>
      rw [run_spaces (by rfl)]
      simp [State.read, if_neg hn, Except.bind, State.uncommented, Mode.uncommented, skip,
        size_replicate_space, size_cons]
    | _ => cases hs

lemma finish_uncommented : s.uncommented.finish = s.finish := by
  obtain ⟨position, mode, levels, start, forms⟩ := s
  cases mode <;> rfl

theorem run_blankFrom (s : State) (text : List Char) :
    run ⟨false⟩ s.uncommented (blankFrom s.mode.region text) = run ⟨true⟩ s text := by
  induction text generalizing s with
  | nil => exact finish_uncommented
  | cons c cs ih =>
    have hstep {t : State} (ht : s.read ⟨true⟩ c = .ok t) :
        run ⟨false⟩ (t.skip [c]).uncommented (blankFrom (s.mode.region.next c) cs) =
          run ⟨true⟩ (t.skip [c]) cs := by
      rw [← region_read ht]
      exact ih (t.skip [c])
    rw [run_cons]
    by_cases hc : s.mode.region.next c = .comment
    · rw [blankFrom_comment hc, run_blank hc]
      rw [hc] at hstep
      cases ht : s.read ⟨true⟩ c with
      | error stop => rfl
      | ok t => exact hstep ht
    · rw [blankFrom_other hc, run_cons, read_uncommented hc]
      cases ht : s.read ⟨true⟩ c with
      | error stop => rfl
      | ok t => exact hstep ht

/-! Lines and columns. -/

open Location

lemma lineFeeds_spaces (offset n : ℕ) (rest : List Char) :
    lineFeeds offset (List.replicate n ' ' ++ rest) = lineFeeds (offset + n) rest := by
  induction n generalizing offset with
  | zero => rfl
  | succ n ih =>
    rw [List.replicate_succ, List.cons_append, lineFeeds, if_neg (by decide), ih]
    congr 1
    exact Nat.add_right_comm ..

lemma lineFeeds_blankFrom (offset : ℕ) (region : Region) (text : List Char) :
    lineFeeds offset (blankFrom region text) = lineFeeds offset text := by
  induction text generalizing offset region with
  | nil => rfl
  | cons c cs ih =>
    by_cases hc : region.next c = .comment
    · have hn : c ≠ '\n' := by
        rintro rfl
        cases region <;> cases hc
      rw [blankFrom_comment hc, lineFeeds_spaces, ih, lineFeeds, if_neg hn]
    · rw [blankFrom_other hc, lineFeeds, lineFeeds, ih]

lemma lineFeedsBefore_blanked (source : String) (offset : ℕ) :
    lineFeedsBefore (blanked source) offset = lineFeedsBefore source offset := by
  rw [lineFeedsBefore, blanked, String.toList_ofList, lineFeeds_blankFrom, lineFeedsBefore]

/-! Texts without comments. -/

lemma next_ne_comment (hs : s.mode.region ≠ .comment) (h : s.read ⟨false⟩ c = .ok t) :
    s.mode.region.next c ≠ .comment := by
  intro hc
  rcases next_eq_comment.1 hc with ⟨hcode, rfl⟩ | ⟨hcomment, -⟩
  · rw [read_code hcode rfl] at h
    obtain ⟨u, -, h⟩ := bind_eq_ok h
    rw [dispatch_stray (.inl ⟨rfl, rfl⟩)] at h
    cases h
  · exact hs hcomment

lemma blankFrom_of_run {fs : List (ℕ × Value)} {text : List Char} (hs : s.mode.region ≠ .comment)
    (h : run ⟨false⟩ s text = .ok fs) : blankFrom s.mode.region text = text := by
  induction text generalizing s with
  | nil => rfl
  | cons c cs ih =>
    rw [run_cons] at h
    obtain ⟨t, ht, h⟩ := bind_eq_ok h
    have hc := next_ne_comment hs ht
    have hcs := ih (s := t.skip [c]) (region_read ht ▸ hc) h
    rw [skip_mode, region_read ht] at hcs
    rw [blankFrom_other hc, hcs]

/-- Comments off: the blanked text is read as the text is with comments on, and a text that is read
at all is read no differently. -/
theorem readForms_blanked (label : Option String) (source : String) :
    (∀ fs, readForms ⟨true⟩ label source = .ok fs ↔
      readForms ⟨false⟩ label (blanked source) = .ok fs) ∧
    (∀ fault, readForms ⟨true⟩ label source = .error fault →
      ∃ fault', readForms ⟨false⟩ label (blanked source) = .error fault' ∧
        fault'.kind = fault.kind ∧ fault'.offset = fault.offset ∧ fault'.line = fault.line ∧
        fault'.column = fault.column) ∧
    ∀ fs, readForms ⟨false⟩ label source = .ok fs → readForms ⟨true⟩ label source = .ok fs := by
  have hrun : run ⟨false⟩ initial (blanked source).toList = run ⟨true⟩ initial source.toList := by
    rw [blanked, String.toList_ofList]
    exact run_blankFrom initial source.toList
  have hforms {options : Options} {text : List Char} :
      forms options text = run options initial text := rfl
  refine ⟨fun fs => ?_, fun fault h => ?_, fun fs h => ?_⟩
  · rw [readForms_eq_ok, readForms_eq_ok, hforms, hforms, hrun]
  · obtain ⟨stop, hstop, rfl⟩ := readForms_eq_error.1 h
    refine ⟨_, readForms_eq_error.2 ⟨stop, hrun.trans hstop, rfl⟩, rfl, rfl, ?_, ?_⟩
    · rw [SyntaxFault.line, Location.line, lineFeedsBefore_blanked, SyntaxFault.line, Location.line]
    · rw [SyntaxFault.column, Location.column, lineFeedsBefore_blanked, SyntaxFault.column,
        Location.column]
  · rw [readForms_eq_ok, hforms] at h ⊢
    have hcode : initial.mode.region ≠ .comment := nofun
    have hblank : blankFrom .code source.toList = source.toList := blankFrom_of_run hcode h
    rw [← hrun, blanked, String.toList_ofList, hblank, h]

theorem readForms_blanked_string :
    blanked "(a;\"é\n\";\")" = "(a    \n\";\")" ∧
      readForms ⟨false⟩ none (blanked "(a;\"é\n\";\")") =
        .ok [(0, .ofList [.symbol "a", .string ";"])] ∧
      (∃ fault, readForms ⟨false⟩ none (blanked "(a;é\n ]") = .error fault ∧
        fault.kind = .mismatched ∧ fault.offset = 7 ∧ fault.line = 2 ∧ fault.column = 2) ∧
      readForms ⟨true⟩ none "\";\"" = .ok [(0, .string ";")] := by
  have hlist : readForms ⟨true⟩ none "(a;\"é\n\";\")" =
      .ok [(0, .ofList [.symbol "a", .string ";"])] := rfl
  have hcloser : readForms ⟨true⟩ none "(a;é\n ]" = .error ⟨.mismatched, "(a;é\n ]", 7, none⟩ := rfl
  refine ⟨rfl, ((readForms_blanked none _).1 _).1 hlist, ?_, (readForms_blanked none _).2.2 _ rfl⟩
  exact (readForms_blanked none _).2.1 _ hcloser

end Lisplet.Reader

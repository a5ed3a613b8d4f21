import Lisplet.Proofs.Reader.Outline

/-! Closing brackets that are out of place. The text before one tells what is wrong with it. With no
list open it is unexpected, and in a list of another family it is mismatched; right behind a quote
mark any closing bracket is unexpected, also one that the list around the quote mark waits for. -/

namespace Lisplet.Reader

open State

def Outline.wrong? (o : Outline) (b : Bracket) : Option SyntaxFault.Kind :=
  if o.quoting then some .unexpected
  else match o.opened with
    | [] => some .unexpected
    | bracket :: _ => if bracket = b then none else some .mismatched

variable {options : Options} {s t : State} {o : Outline} {b : Bracket} {c : Char}
variable {stop : Stop}

lemma wrong?_eq_unexpected :
    o.wrong? b = some .unexpected ↔ o.opened = [] ∨ o.quoting = true := by
  rw [Outline.wrong?]
  cases o.quoting with
  | true => simp
  | false =>
    cases o.opened with
    | nil => simp
    | cons bracket outer => by_cases hb : bracket = b <;> simp [hb]

lemma wrong?_eq_mismatched : o.wrong? b = some .mismatched ↔
    o.quoting = false ∧ ∃ bracket outer, o.opened = bracket :: outer ∧ bracket ≠ b := by
  rw [Outline.wrong?]
  cases o.quoting with
  | true => simp
  | false =>
    cases o.opened with
    | nil => simp
    | cons bracket outer => by_cases hb : bracket = b <;> simp [hb]

/-! One character. -/

lemma close_eq_error (ho : Outlined o s) (hs : s.mode = .between) :
    s.close b = .error stop ↔ ∃ kind ∈ o.wrong? b, stop = ⟨kind, s.position⟩ := by
  have hquoting : o.quoting = true ↔ ∃ levels, s.levels = .quote :: levels := by
    rw [← ho.quoting, Quoting, hs]
    simp
  rw [close, Outline.wrong?, ← ho.opened, families]
  cases hl : s.levels with
  | nil =>
    simp only [hl, reduceCtorEq, exists_false, iff_false, Bool.not_eq_true] at hquoting
    simp [hquoting, eq_comm]
  | cons level levels =>
    cases level with
    | quote =>
      simp only [hl, List.cons.injEq, true_and, exists_eq', iff_true] at hquoting
      simp [hquoting, eq_comm]
    | list bracket items =>
      simp only [hl, List.cons.injEq, reduceCtorEq, false_and, exists_false, iff_false,
        Bool.not_eq_true] at hquoting
      by_cases hb : bracket = b <;> simp [hquoting, Level.family?, hb, eq_comm]

lemma settle_error (h : s.settle = .error stop) : stop.kind = .invalid := by
  rw [settle] at h
  split at h
  · split at h <;> cases h
    rfl
  · cases h

lemma dispatch_error (h : s.dispatch options c = .error stop) :
    stop.kind = .invalid ∨ ∃ b : Bracket, c = b.closer ∧ s.close b = .error stop := by
  rcases char_cases c with hc | rfl | rfl | rfl | ⟨b, rfl⟩ | ⟨b, rfl⟩ | hc | hc
  · rw [dispatch_space hc] at h
    cases h
  · rw [dispatch_semicolon] at h
    split at h <;> cases h
    exact .inl rfl
  · cases h
  · cases h
  · rw [dispatch_opener] at h
    cases h
  · rw [dispatch_closer] at h
    exact .inr ⟨b, rfl, h⟩
  · rw [dispatch_stray (.inr hc)] at h
    cases h
    exact .inl rfl
  · rw [dispatch_token hc] at h
    cases h

lemma read_code_error (hs : s.mode.region = .code) (h : s.read options c = .error stop) :
    stop.kind = .invalid ∨
      ∃ b t, c = Bracket.closer b ∧ s.settle = .ok t ∧ t.close b = .error stop := by
  cases hc : isTokenChar c with
  | true =>
    obtain hm | ⟨start, chars, hm⟩ := mode_of_code hs
    · rw [read_between hm, dispatch_token hc] at h
      cases h
    · simp only [State.read, hm, hc, if_true] at h
      cases h
  | false =>
    rw [read_code hs hc] at h
    cases ht : s.settle with
    | error stop' =>
      rw [ht] at h
      cases h
      exact .inl (settle_error ht)
    | ok t =>
      rw [ht] at h
      obtain hkind | ⟨b, hb, hclose⟩ := dispatch_error h
      · exact .inl hkind
      · exact .inr ⟨b, t, hb, rfl, hclose⟩

lemma read_other_error (hs : s.mode.region ≠ .code) (h : s.read options c = .error stop) :
    stop.kind = .invalid := by
  cases hm : s.mode with
  | comment =>
    simp only [State.read, hm] at h
    cases h
  | string chars =>
    simp only [State.read, hm] at h
    split at h
    · cases h
    · split at h <;> cases h
  | escape chars =>
    simp only [State.read, hm] at h
    split at h <;> cases h
    rfl
  | _ =>
    rw [hm] at hs
    exact absurd rfl hs

lemma finish_error (h : s.finish = .error stop) : stop.kind = .invalid ∨ stop.kind = .incomplete := by
  rw [finish] at h
  cases ht : s.settle with
  | error stop' =>
    rw [ht] at h
    cases h
    exact .inl (settle_error ht)
  | ok t =>
    rw [ht, Except.bind] at h
    split at h <;> cases h
    exact .inr rfl

lemma Outlined.read_error (ho : Outlined o s) (hkind : stop.kind ≠ .invalid)
    (h : s.read options c = .error stop) :
    stop.offset = s.position ∧ o.region = .code ∧
      ∃ b : Bracket, c = b.closer ∧ o.wrong? b = some stop.kind := by
  by_cases hs : s.mode.region = .code
  · obtain hinvalid | ⟨b, t, rfl, ht, hclose⟩ := read_code_error hs h
    · exact absurd hinvalid hkind
    · obtain ⟨kind, hwrong, rfl⟩ := (close_eq_error (ho.settle hs ht) (settle_mode hs ht)).1 hclose
      exact ⟨settle_position ht, ho.region ▸ hs, b, rfl, hwrong⟩
  · exact absurd (read_other_error hs h) hkind

/-! Whole texts. -/

theorem Outlined.run_error {text : List Char} (ho : Outlined o s) (hinvalid : stop.kind ≠ .invalid)
    (hincomplete : stop.kind ≠ .incomplete) (h : run options s text = .error stop) :
    ∃ before b after, text = before ++ Bracket.closer b :: after ∧
      stop.offset = s.position + size before ∧ (before.foldl Outline.next o).region = .code ∧
      (before.foldl Outline.next o).wrong? b = some stop.kind := by
  induction text generalizing s o with
  | nil => exact (finish_error h).elim (absurd · hinvalid) (absurd · hincomplete)
  | cons c cs ih =>
    rw [run_cons] at h
    cases ht : s.read options c with
    | error stop' =>
      rw [ht] at h
      cases h
      obtain ⟨hoffset, hregion, b, rfl, hwrong⟩ := ho.read_error hinvalid ht
      exact ⟨[], b, cs, rfl, hoffset, hregion, hwrong⟩
    | ok t =>
      rw [ht] at h
      obtain ⟨before, b, after, rfl, hoffset, hfault⟩ := ih ((ho.read ht).skip [c]) h
      exact ⟨c :: before, b, after, rfl, hoffset.trans (skip_position_add ht before), hfault⟩

/-- A bracket that is reported is a closing one in code. It is unexpected exactly if no list is open
or a quote mark waits for its form, and else mismatched, which the partner of the innermost open
bracket never is. The two kinds tell whether a list is open as long as no quote mark waits in one. -/
theorem readForms_closer {label : Option String} {source : String} {fault : SyntaxFault}
    (h : readForms options label source = .error fault)
    (hkind : fault.kind = .mismatched ∨ fault.kind = .unexpected) :
    ∃ (before after : String) (b : Bracket) (o : Outline),
      source = before ++ after ∧ before.utf8ByteSize = fault.offset ∧
      after.toList.head? = some b.closer ∧ outline before.toList = o ∧ o.region = .code ∧
      (fault.kind = .unexpected ↔ o.opened = [] ∨ o.quoting = true) ∧
      (fault.kind = .mismatched ↔
        o.quoting = false ∧ ∃ bracket outer, o.opened = bracket :: outer ∧ bracket ≠ b) ∧
      (o.opened.head? = some b → o.quoting = true) ∧
      ((fault.kind = .unexpected ↔ o.opened = []) ↔ (o.quoting = true → o.opened = [])) := by
  obtain ⟨stop, hrun, rfl⟩ := readForms_eq_error.1 h
  have hinvalid : stop.kind ≠ .invalid := by
    rintro hstop
    simp [hstop] at hkind
  have hincomplete : stop.kind ≠ .incomplete := by
    rintro hstop
    simp [hstop] at hkind
  obtain ⟨before, b, after, htext, hoffset, hregion, hwrong⟩ :=
    outlined_initial.run_error hinvalid hincomplete hrun
  have hwrong : (outline before).wrong? b = some stop.kind := hwrong
  have hunexpected : stop.kind = .unexpected ↔
      (outline before).opened = [] ∨ (outline before).quoting = true := by
    rw [← wrong?_eq_unexpected (b := b), hwrong, Option.some_inj]
  have hmismatched : stop.kind = .mismatched ↔ (outline before).quoting = false ∧
      ∃ bracket outer, (outline before).opened = bracket :: outer ∧ bracket ≠ b := by
    rw [← wrong?_eq_mismatched, hwrong, Option.some_inj]
  refine ⟨String.ofList before, String.ofList (b.closer :: after), b, outline before, ?_, ?_, ?_,
    ?_, hregion, hunexpected, hmismatched, fun hb => ?_, ?_⟩
  · rw [← String.ofList_append, ← htext, String.ofList_toList]
  · rw [hoffset, String.utf8ByteSize_ofList]
    exact (Nat.zero_add _).symm
  · rw [String.toList_ofList, List.head?_cons]
  · rw [String.toList_ofList]
  · obtain hstop | hstop := hkind
    · obtain ⟨-, bracket, outer, hopened, hne⟩ := hmismatched.1 hstop
      rw [hopened, List.head?_cons] at hb
      exact absurd (Option.some.inj hb) hne
    · refine (hunexpected.1 hstop).resolve_left fun hnil => ?_
      simp [hnil] at hb
  · rw [hunexpected]
    exact or_iff_left_iff_imp

theorem readForms_closer_nested :
    readForms ⟨true⟩ none "(a ['b; ]\n \x7d" =
        .error ⟨.mismatched, "(a ['b; ]\n \x7d", 11, none⟩ ∧
      ∃ (before after : String) (b : Bracket) (o : Outline),
        "(a ['b; ]\n \x7d" = before ++ after ∧ before.utf8ByteSize = 11 ∧
        after.toList.head? = some b.closer ∧ outline before.toList = o ∧ o.quoting = false ∧
        ∃ bracket outer, o.opened = bracket :: outer ∧ bracket ≠ b := by
  have h : readForms ⟨true⟩ none "(a ['b; ]\n \x7d" =
      .error ⟨.mismatched, "(a ['b; ]\n \x7d", 11, none⟩ := rfl
  obtain ⟨before, after, b, o, hsource, hoffset, hcloser, ho, -, -, hmismatched, -⟩ :=
    readForms_closer h (.inl rfl)
  obtain ⟨hquoting, hopened⟩ := hmismatched.1 rfl
  exact ⟨h, before, after, b, o, hsource, hoffset, hcloser, ho, hquoting, hopened⟩

theorem unexpected_in_list :
    (outline "('".toList).opened = [.round] ∧
      readForms ⟨true⟩ none "(']" = .error ⟨.unexpected, "(']", 2, none⟩ ∧
      readForms ⟨true⟩ none "(')" = .error ⟨.unexpected, "(')", 2, none⟩ :=
  ⟨rfl, rfl, rfl⟩

end Lisplet.Reader

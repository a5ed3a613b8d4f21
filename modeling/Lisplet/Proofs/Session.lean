import Lisplet.Proofs.Eval.Discipline
import Lisplet.Proofs.Reader.Faults
import Lisplet.Session

/-! Answers to faulty lines. The caret is as many places to the right as there are bytes before the
fault, which are the characters before it only if each of them is one byte. -/

namespace Lisplet

open Reader

namespace Location

lemma lineFeeds_eq_nil {cs : List Char} (h : '\n' ∉ cs) (offset : ℕ) : lineFeeds offset cs = [] := by
  induction cs generalizing offset with
  | nil => rfl
  | cons c cs ih =>
    obtain ⟨hc, hcs⟩ := not_or.1 (List.mem_cons.not.1 h)
    rw [lineFeeds, if_neg (Ne.symm hc)]
    exact ih hcs _

lemma column_of_not_mem {source : String} (h : '\n' ∉ source.toList) (offset : ℕ) :
    column source offset = offset + 1 := by
  rw [column, lineFeedsBefore, lineFeeds_eq_nil h]
  rfl

end Location

namespace Reader

lemma length_le_size (cs : List Char) : cs.length ≤ size cs := by
  induction cs with
  | nil => exact le_rfl
  | cons c cs ih =>
    have hc := c.utf8Size_pos
    rw [List.length_cons, size_cons]
    omega

lemma size_eq_length_iff {cs : List Char} : size cs = cs.length ↔ ∀ c ∈ cs, c.utf8Size = 1 := by
  induction cs with
  | nil => exact iff_of_true rfl fun _ hc => absurd hc List.not_mem_nil
  | cons c cs ih =>
    have hc := c.utf8Size_pos
    have hcs := length_le_size cs
    rw [List.forall_mem_cons, ← ih, List.length_cons, size_cons]
    omega

end Reader

abbrev World.shown (w : World) (text : String) : World :=
  { w with transcript := { w.transcript with printed := w.transcript.printed ++ text } }

namespace Session

variable {line text input : String} {fault : SyntaxFault} {read : String → Except FileFault String}
  {fuel : ℕ} {scope : Scope} {w : World}

def caretLine (blanks : ℕ) : String :=
  String.ofList (List.replicate blanks ' ' ++ ['^'])

lemma caretLine_inj {m n : ℕ} : caretLine m = caretLine n ↔ m = n := by
  refine ⟨fun h => ?_, congrArg caretLine⟩
  have hlength := congrArg List.length (String.ofList_injective h)
  simpa using hlength

lemma not_mem_of_mem_splitLines {before cs : List Char} (hbefore : '\n' ∉ before)
    (h : line ∈ splitLines before cs) : '\n' ∉ line.toList := by
  induction cs generalizing before with
  | nil =>
    cases before with
    | nil => cases h
    | cons c before =>
      obtain rfl := List.mem_singleton.1 h
      rwa [String.toList_ofList, List.mem_reverse]
  | cons c cs ih =>
    rw [splitLines] at h
    split at h
    · rcases List.mem_cons.1 h with rfl | h
      · rwa [String.toList_ofList, List.mem_reverse]
      · exact ih List.not_mem_nil h
    · next hc => exact ih (List.not_mem_cons_of_ne_of_not_mem (Ne.symm hc) hbefore) h

lemma mem_of_mem_trim {c : Char} {s : String} (h : c ∈ (Text.trim s).toList) : c ∈ s.toList := by
  rw [Text.trim, String.toList_ofList, List.mem_reverse] at h
  have hfront := (List.dropWhile_sublist _).subset h
  exact (List.dropWhile_sublist _).subset (List.mem_reverse.1 hfront)

lemma eq_trim_of_ofLine (h : Command.ofLine line = .source text) : text = Text.trim line := by
  unfold Command.ofLine at h
  split at h
  case h_6 =>
    split at h
    · cases h
    · cases h
      rfl
  all_goals cases h

lemma caretLine_eq (offset : ℕ) :
    "  " ++ Text.padLeft (offset + 1) "^" = caretLine (2 + offset) := by
  have hwidth : offset + 1 - "^".length = offset := rfl
  rw [Text.padLeft, hwidth, caretLine, List.replicate_add, String.ofList_append,
    String.ofList_append, String.append_assoc]
  rfl

lemma faultText_eq (hsource : '\n' ∉ fault.source.toList) (hlabel : fault.label = none) :
    faultText (.parse fault) = lines
      ["Error: " ++ fault.message ++ " (" ++ fault.kind.reason ++ ")", "  " ++ fault.source,
        caretLine (2 + fault.offset)] := by
  have hcolumn : fault.column = fault.offset + 1 := Location.column_of_not_mem hsource _
  have hshown : fault.shownLabel = "" := by rw [SyntaxFault.shownLabel, hlabel, Option.getD_none]
  rw [faultText, if_pos hshown, caretLines, hcolumn, caretLine_eq]

lemma parse_eq_error (h : readForms defaultOptions none text = .error fault) :
    Program.parse defaultOptions none text w =
      some (.error (.parse fault), w.logged (.stopped fault.kind fault.offset)) := by
  refine Run.bind_of_error ?_
  rw [Program.entriesOf, h]
  rfl

lemma answer_source_error (h : readForms defaultOptions none text = .error fault) :
    answer read fuel scope (.source text) w =
      some (.ok (), (w.logged (.stopped fault.kind fault.offset)).shown
        (faultText (.parse fault))) := by
  have hattempt : Run.attempt (Program.parse defaultOptions none text >>= fun p =>
      p.execute host fuel scope) w =
        some (.ok (.error (.parse fault)), w.logged (.stopped fault.kind fault.offset)) := by
    rw [Run.attempt, Run.bind_of_error (parse_eq_error h)]
    rfl
  rw [answer, execute, Run.bind_of_ok hattempt]
  rfl

/-- A line that is not read is answered with its fault, and below the line with a caret behind as
many blanks as there are bytes before the fault. That is where the fault is if all characters before
it are one byte, and otherwise the caret is too far to the right. -/
theorem answerAll_refused (hline : line ∈ splitLines [] input.toList)
    (hcommand : Command.ofLine line = .source text)
    (hfault : readForms defaultOptions none text = .error fault) :
    (∀ rest, answerAll read fuel scope (line :: rest) w =
      answerAll read fuel scope rest ((w.logged (.stopped fault.kind fault.offset)).shown (lines
        ["Error: " ++ fault.message ++ " (" ++ fault.kind.reason ++ ")", "  " ++ text,
          caretLine (2 + fault.offset)]))) ∧
    ∃ before after, text = before ++ after ∧ before.utf8ByteSize = fault.offset ∧
      (after = "" ↔ fault.kind = .incomplete) ∧ before.length ≤ fault.offset ∧
      (caretLine (2 + fault.offset) = caretLine (2 + before.length) ↔
        ∀ c ∈ before.toList, c.utf8Size = 1) := by
  obtain ⟨stop, hrun, rfl⟩ := readForms_eq_error.1 hfault
  have htext : '\n' ∉ text.toList := by
    rw [eq_trim_of_ofLine hcommand]
    exact fun hmem => not_mem_of_mem_splitLines List.not_mem_nil hline (mem_of_mem_trim hmem)
  constructor
  · intro rest
    rw [answerAll, hcommand]
    refine (Run.bind_of_ok (answer_source_error hfault)).trans ?_
    rw [faultText_eq htext rfl]
  · obtain ⟨before, after, hlocated⟩ := exists_located rfl hrun
    have hoffset : stop.offset = size before := by simpa [initial] using hlocated.offset_eq
    refine ⟨String.ofList before, String.ofList after, ?_, ?_, ?_, ?_, ?_⟩
    · rw [← String.ofList_append, ← hlocated.text_eq, String.ofList_toList]
    · rw [String.utf8ByteSize_ofList, hoffset, size]
    · rw [hlocated.incomplete_iff]
      simp
    · rw [hoffset, String.length_ofList]
      exact length_le_size before
    · rw [caretLine_inj, Nat.add_left_cancel_iff, hoffset, String.length_ofList,
        String.toList_ofList]
      exact size_eq_length_iff

theorem answerAll_refused_ascii :
    (answerAll (fun _ => .error .missing) 0 ⟨0, []⟩ ["(a ]"] .empty).map
        (fun result => result.2.transcript.printed) =
      some (lines ["Error: parsing error on 1:4 (mismatched delimiter)", "  (a ]", "     ^",
        "Goodbye!"]) := by
  have hfault : readForms defaultOptions none "(a ]" = .error ⟨.mismatched, "(a ]", 3, none⟩ := rfl
  have hline : "(a ]" ∈ splitLines [] "(a ]\n".toList := by decide
  rw [(answerAll_refused hline (by decide) hfault).1 []]
  rfl

theorem caret_behind_fault :
    Command.ofLine "é)" = .source "é)" ∧
      readForms defaultOptions none "é)" = .error ⟨.unexpected, "é)", 2, none⟩ ∧
      "é".utf8ByteSize = 2 ∧
      (answer (fun _ => .error .missing) 0 ⟨0, []⟩ (.ofLine "é)") .empty).map
        (fun result => result.2.transcript.printed) =
          some (lines ["Error: parsing error on 1:3 (unexpected closing delimiter)", "  é)",
            caretLine 4]) ∧
      caretLine 4 ≠ caretLine (2 + "é".length) :=
  ⟨by decide, rfl, rfl, rfl, by decide⟩

end Session

end Lisplet

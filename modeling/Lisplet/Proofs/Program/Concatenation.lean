import Lisplet.Proofs.Eval.Log
import Lisplet.Proofs.Program.RoundTrip
import Lisplet.Proofs.Reader.Shift
import Lisplet.Toolkit

/-! Source texts one after another. A text behind another one on a new line gives the same forms
behind those of the other, and executing them all is to execute first the ones, then the others. -/

namespace Lisplet

open Reader

def Event.unnumbered : Event → Option Event
  | .executing _ form => some (.executing 0 form)
  | event => some event

namespace Program

variable {host : Host} {fuel index : ℕ} {scope : Scope} {last : Value} {forms : List Value}

lemma executeFrom_append (xs ys : List Value) :
    executeFrom host fuel scope index last (xs ++ ys) =
      executeFrom host fuel scope index last xs >>= fun v =>
        executeFrom host fuel scope (index + xs.length) v ys := by
  induction xs generalizing index last with
  | nil => simp only [List.nil_append, executeFrom, pure_bind, List.length_nil, Nat.add_zero]
  | cons form xs ih =>
    have hindex : index + 1 + xs.length = index + (form :: xs).length := by
      rw [List.length_cons]
      omega
    simp only [List.cons_append, executeFrom, ih, bind_assoc, hindex]

lemma alike_executeFrom (hhost : host.Blind) (other : ℕ) :
    Run.Alike Event.unnumbered (executeFrom host fuel scope index last forms)
      (executeFrom host fuel scope other last forms) := by
  induction forms generalizing index other last with
  | nil => exact (Run.blind_pure last).alike
  | cons form forms ih =>
    have hlog : Run.Alike Event.unnumbered (Run.log (.executing index form))
        (Run.log (.executing other form)) := Run.alike_log rfl
    have heval : (eval host fuel form scope).Blind := blind_perform hhost fuel _ scope
    exact Run.alike_bind hlog fun _ => Run.alike_bind heval.alike fun v => ih (other + 1)

lemma alike_execute (hhost : host.Blind) {p q r : Program} (hr : r.forms = p.forms ++ q.forms) :
    Run.Alike Event.unnumbered (r.execute host fuel scope)
      (do
        let u ← p.execute host fuel scope
        let v ← q.execute host fuel scope
        pure (if q.forms.isEmpty then u else v)) := by
  rw [execute, hr, executeFrom_append]
  refine Run.alike_bind (alike_executeFrom hhost 0) fun u => ?_
  rw [execute]
  cases hq : q.forms with
  | nil =>
    have hvalue : (executeFrom host fuel scope 0 .unspecified [] >>= fun v =>
        pure (if ([] : List Value).isEmpty then u else v)) = pure u := pure_bind _ _
    rw [hvalue]
    exact (Run.blind_pure u).alike
  | cons form forms =>
    have hvalue : (executeFrom host fuel scope 0 .unspecified (form :: forms) >>= fun v =>
        pure (if (form :: forms).isEmpty then u else v)) =
        executeFrom host fuel scope 0 u (form :: forms) := bind_pure _
    rw [hvalue]
    exact alike_executeFrom hhost 0

lemma execute_eq_error {p : Program} {before after : List Value} {form u : Value} {fault : Fault}
    {w w₁ w' : World} (hp : p.forms = before ++ form :: after)
    (hbefore : executeFrom host fuel scope 0 .unspecified before w = some (.ok u, w₁))
    (hform : eval host fuel form scope (w₁.logged (.executing before.length form)) =
      some (.error fault, w')) :
    p.execute host fuel scope w = some (.error fault, w') := by
  have hlog : Run.log (.executing before.length form) w₁ =
    some (.ok (), w₁.logged (.executing before.length form)) := rfl
  rw [execute, hp, executeFrom_append, Run.bind_apply, hbefore, Nat.zero_add]
  simp only [executeFrom, Run.bind_apply, hlog, hform, Option.bind_some]

/-- A text behind another one on a new line: its forms or its fault stand behind those of the
other, and to execute both texts at once is to execute one and, if it comes to an end, the other. -/
theorem ofSource_append_newline {options : Options} {label : Option String} {a b : String}
    {p : Program} (ha : ofSource options label a = .ok p) :
    (∀ fault, ofSource options label b = .error fault →
      ofSource options label (a ++ "\n" ++ b) =
        .error ⟨fault.kind, a ++ "\n" ++ b, fault.offset + (a.utf8ByteSize + 1), label⟩) ∧
    ∀ q, ofSource options label b = .ok q →
      ∃ r, ofSource options label (a ++ "\n" ++ b) = .ok r ∧
        r.entries = p.entries ++
          q.entries.map (fun entry => (entry.1 + (a.utf8ByteSize + 1), entry.2)) ∧
        ∀ host : Host, host.Blind → ∀ fuel scope w,
          Run.outcome Event.unnumbered (r.execute host fuel scope) w =
            Run.outcome Event.unnumbered (do
              let u ← p.execute host fuel scope
              let v ← q.execute host fuel scope
              pure (if q.forms.isEmpty then u else v)) w ∧
          ∀ before form after u w₁ fault w', r.forms = before ++ form :: after →
            executeFrom host fuel scope 0 .unspecified before w = some (.ok u, w₁) →
            eval host fuel form scope (w₁.logged (.executing before.length form)) =
              some (.error fault, w') →
            r.execute host fuel scope w = some (.error fault, w') := by
  obtain ⟨hentries, -, -⟩ := ofSource_eq_ok.1 ha
  obtain ⟨hok, herror⟩ := readForms_append_newline hentries b
  refine ⟨fun fault hb => ?_, fun q hb => ?_⟩
  · rw [ofSource_eq_error] at hb ⊢
    exact herror fault hb
  · obtain ⟨hb, -, -⟩ := ofSource_eq_ok.1 hb
    refine ⟨⟨a ++ "\n" ++ b, label, _⟩, ofSource_eq_ok.2 ⟨hok _ hb, rfl, rfl⟩, rfl, ?_⟩
    intro host hhost fuel scope w
    refine ⟨alike_execute hhost ?_ w w rfl, fun _ _ _ _ _ _ _ => execute_eq_error⟩
    simp [forms, shiftEntry]

end Program

namespace Toolkit

open Run Eval

lemma blind_noteAll (what : String) (vs : List Value) : (noteAll what vs).Blind := by
  have hnotes : Run.Blind (vs.forM fun v => note (what ++ " " ++ v.text)) := by
    induction vs with
    | nil => exact blind_pure ()
    | cons v vs ih => exact blind_bind (blind_note _) fun _ => ih
  exact blind_bind hnotes fun _ => blind_pure _

lemma blind_applyToItems {go : Performer} (hgo : go.Blind) (operands : List Value) (scope : Scope) :
    (applyToItems go operands scope).Blind := by
  refine blind_bind (blind_args hgo operands scope) fun args => ?_
  split
  · exact hgo _ scope
  · exact blind_fail _

lemma blind_untyped : untyped.Blind := by
  intro name p hp
  have hmem : (name, p) ∈ untyped := by
    obtain ⟨before, after, heq, -⟩ := List.lookup_eq_some_iff.1 hp
    simp [heq]
  simp only [untyped, List.mem_cons, Prod.mk.injEq, List.not_mem_nil, or_false] at hmem
  rcases hmem with ⟨-, rfl⟩ | ⟨-, rfl⟩ | ⟨-, rfl⟩ | ⟨-, rfl⟩ | ⟨-, rfl⟩ | ⟨-, rfl⟩
  · exact fun args => blind_pure _
  · exact blind_noteAll "val"
  · exact fun go _ operands _ => blind_noteAll "raw" operands
  · exact fun go hgo operands scope =>
      blind_bind (blind_args hgo operands scope) fun forms => blind_sequence hgo forms scope
  · exact fun go hgo => blind_applyToItems hgo
  · exact fun go hgo operands scope =>
      blind_bind (blind_extend _ _) fun inner => blind_sequence hgo operands inner

end Toolkit

namespace Program

theorem ofSource_append_newline_record : ∃ p q r w',
    ofSource defaultOptions none "(record #t)" = .ok p ∧
    ofSource defaultOptions none "y" = .ok q ∧
    ofSource defaultOptions none ("(record #t)" ++ "\n" ++ "y") = .ok r ∧
    r.entries = p.entries ++ [(12, .symbol "y")] ∧
    Run.outcome Event.unnumbered (r.execute Toolkit.untyped 3 ⟨0, []⟩)
        (World.start Toolkit.untyped.bindings).2 =
      Run.outcome Event.unnumbered (do
        let u ← p.execute Toolkit.untyped 3 ⟨0, []⟩
        let v ← q.execute Toolkit.untyped 3 ⟨0, []⟩
        pure (if q.forms.isEmpty then u else v)) (World.start Toolkit.untyped.bindings).2 ∧
    r.execute Toolkit.untyped 3 ⟨0, []⟩ (World.start Toolkit.untyped.bindings).2 =
      some (.error (.unbound "y"), w') ∧
    w'.transcript.notes = #["val #t"] ∧
    ofSource defaultOptions none ("(record #t)" ++ "\n" ++ " )") =
      .error ⟨.unexpected, "(record #t)" ++ "\n" ++ " )", 13, none⟩ := by
  obtain ⟨p, hp, hforms⟩ : ∃ p, ofSource defaultOptions none "(record #t)" = .ok p ∧
      p.forms = [.ofList [.symbol "record", .boolean true]] := ⟨_, rfl, rfl⟩
  obtain ⟨q, hq, hentries⟩ : ∃ q, ofSource defaultOptions none "y" = .ok q ∧
      q.entries = [(0, .symbol "y")] := ⟨_, rfl, rfl⟩
  obtain ⟨u, w₁, w', hbefore, hform, hnotes⟩ : ∃ u w₁ w',
      executeFrom Toolkit.untyped 3 ⟨0, []⟩ 0 .unspecified
          [.ofList [.symbol "record", .boolean true]] (World.start Toolkit.untyped.bindings).2 =
        some (.ok u, w₁) ∧
      eval Toolkit.untyped 3 (.symbol "y") ⟨0, []⟩ (w₁.logged (.executing 1 (.symbol "y"))) =
        some (.error (.unbound "y"), w') ∧
      w'.transcript.notes = #["val #t"] := ⟨_, _, _, rfl, rfl, rfl⟩
  obtain ⟨r, hr, hall, hruns⟩ := (ofSource_append_newline hp).2 q hq
  obtain ⟨halike, heffects⟩ := hruns Toolkit.untyped Toolkit.blind_untyped 3 ⟨0, []⟩
    (World.start Toolkit.untyped.bindings).2
  have hafter : r.forms = [.ofList [.symbol "record", .boolean true]] ++ .symbol "y" :: [] := by
    rw [forms, hall, List.map_append, hentries, ← hforms]
    rfl
  refine ⟨p, q, r, w', hp, hq, hr, ?_, halike, ?_, hnotes, ?_⟩
  · rw [hall, hentries]
    rfl
  · exact heffects _ _ _ u w₁ _ w' hafter hbefore hform
  · exact (ofSource_append_newline hp).1 ⟨.unexpected, " )", 1, none⟩ rfl

end Program

end Lisplet

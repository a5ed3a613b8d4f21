import Lisplet.Proofs.Eval.Context
import Lisplet.Proofs.Eval.Log
import Lisplet.Proofs.Eval.Rules
import Lisplet.Proofs.Program.RoundTrip

/-! Forms in sequence: as the forms of a program, one after another, and under the control form for
sequences. -/

namespace Lisplet

def Event.unexecuted : Event → Option Event
  | .executing .. => none
  | event => some event

namespace Run

lemma alike_unlogged {note : Event → Option Event} {event : Event} (h : note event = none) :
    Alike note (log event) (pure ()) := by
  intro w w' hw
  have hlog : outcome note (log event) w = some (.ok (), (w.logged event).view note) := rfl
  rw [hlog, World.view_logged, h, hw]
  rfl

end Run

namespace Program

variable {host : Host} {fuel index : ℕ} {scope : Scope} {last : Value} {forms : List Value}
  {w : World}

lemma alike_executeFrom_foldlM (hhost : host.Blind) :
    Run.Alike Event.unexecuted (executeFrom host fuel scope index last forms)
      (forms.foldlM (fun _ form => eval host fuel form scope) last) := by
  induction forms generalizing index last with
  | nil => exact (Run.blind_pure last).alike
  | cons form forms ih =>
    have hlog : Run.Alike Event.unexecuted (Run.log (.executing index form)) (pure ()) :=
      Run.alike_unlogged rfl
    have heval : (eval host fuel form scope).Blind := blind_perform hhost fuel _ scope
    rw [List.foldlM_cons]
    exact Run.alike_bind hlog fun _ => Run.alike_bind heval.alike fun _ => ih

/-- The control form for sequences, the evaluation of forms in order and the execution of a program
come to one outcome, fault or value, or to none. Only the program logs the forms it executes. -/
theorem sequencings_agree (host : Host) (fuel : ℕ) (mark : Option ℕ) (p : Program) (scope : Scope)
    (w : World) (hhost : host.Blind)
    (hbegin : w.store.get? scope "begin" = some (.operation (.builtin (.form .sequence)))) :
    eval host (fuel + 2) (.list mark (.symbol "begin" :: p.forms)) scope w =
      Eval.sequence (perform host (fuel + 1)) p.forms scope w ∧
    Run.outcome Event.unexecuted (p.execute host (fuel + 1) scope) w =
      Run.outcome Event.unexecuted (Eval.sequence (perform host (fuel + 1)) p.forms scope) w := by
  constructor
  · have hop : eval host (fuel + 1) (.symbol "begin") scope w = some (.ok _, w) :=
      eval_symbol hbegin
    rw [eval_list_of_ok hop, Eval.apply_sequence, Eval.within_sequence]
  · exact alike_executeFrom_foldlM hhost w w rfl

theorem sequencings_agree_renamed : ∃ p fault w',
    ofSource Reader.defaultOptions none "(define begin car) (begin '())" = .ok p ∧
    fault.detail? =
      some "car of empty list\n  Context: while evaluating: (begin (quote ()))" ∧
    eval [] 4 (.ofList (.symbol "begin" :: p.forms)) ⟨0, []⟩ (World.start .global).2 =
      some (.error fault, w') ∧
    Eval.sequence (perform [] 3) p.forms ⟨0, []⟩ (World.start .global).2 =
      some (.error fault, w') ∧
    Run.outcome Event.unexecuted (p.execute [] 3 ⟨0, []⟩) (World.start .global).2 =
      some (.error fault, w'.view Event.unexecuted) := by
  obtain ⟨p, hp, hforms⟩ : ∃ p,
      ofSource Reader.defaultOptions none "(define begin car) (begin '())" = .ok p ∧
        p.forms = [.ofList [.symbol "define", .symbol "begin", .symbol "car"],
          .ofList [.symbol "begin", .ofList [.symbol "quote", .nil]]] := ⟨_, rfl, rfl⟩
  obtain ⟨fault, w', hrun, hdetail⟩ : ∃ fault w',
      Eval.sequence (perform [] 3) p.forms ⟨0, []⟩ (World.start .global).2 =
        some (.error fault, w') ∧
      fault.detail? =
        some "car of empty list\n  Context: while evaluating: (begin (quote ()))" := by
    rw [hforms]
    exact ⟨_, _, rfl, by decide +kernel⟩
  have hblind : Host.Blind [] := fun _ _ hp => nomatch hp
  obtain ⟨hbegin, hexecute⟩ :=
    sequencings_agree [] 2 none p ⟨0, []⟩ (World.start .global).2 hblind rfl
  refine ⟨p, fault, w', hp, hdetail, hbegin.trans hrun, hrun, hexecute.trans ?_⟩
  rw [Run.outcome, hrun]
  rfl

end Program

end Lisplet

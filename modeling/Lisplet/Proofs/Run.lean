import Lisplet.Run
import Mathlib.Tactic.Common

/-! Runs in sequence. -/

namespace Lisplet.Run

variable {α β : Type} {run : Run α} {f : α → Run β} {r : Except Fault β} {w w' : World}

lemma bind_apply (run : Run α) (f : α → Run β) (w : World) :
    (run >>= f) w = (run w).bind fun result =>
      match result.1 with
      | .ok a => f a result.2
      | .error fault => some (.error fault, result.2) := by
  change ExceptT.bind run f w = _
  simp only [ExceptT.bind, ExceptT.mk, ExceptT.bindCont, bind, StateT.bind]
  cases run w with
  | none => rfl
  | some result =>
    obtain ⟨_ | _, _⟩ := result
    · rfl
    · rfl

lemma bind_of_ok {a : α} {w₁ : World} (h : run w = some (.ok a, w₁)) :
    (run >>= f) w = f a w₁ := by
  rw [bind_apply, h]
  rfl

lemma bind_of_error {fault : Fault} {w₁ : World} (h : run w = some (.error fault, w₁)) :
    (run >>= f) w = some (.error fault, w₁) := by
  rw [bind_apply, h]
  rfl

lemma within_of_error {fault : Fault} (h : run w = some (.error fault, w')) (form : Value) :
    run.within form w = some (.error (fault.within form), w') := by
  rw [within, h]
  rfl

lemma bind_eq_some (h : (run >>= f) w = some (r, w')) :
    (∃ a w₁, run w = some (.ok a, w₁) ∧ f a w₁ = some (r, w')) ∨
      ∃ fault, run w = some (.error fault, w') ∧ r = .error fault := by
  rw [bind_apply] at h
  obtain ⟨⟨s, w₁⟩, hs, h⟩ := Option.bind_eq_some_iff.1 h
  cases s with
  | ok a => exact .inl ⟨a, w₁, hs, h⟩
  | error fault =>
    cases h
    exact .inr ⟨fault, hs, rfl⟩

lemma exists_of_isOk {x : Option (Except Fault α × World)}
    (h : (x.map fun result => result.1.isOk) = some true) : ∃ a w, x = some (.ok a, w) := by
  obtain ⟨⟨_ | a, w⟩, hx, hok⟩ := Option.map_eq_some_iff.1 h
  · cases hok
  · exact ⟨a, w, hx⟩

end Lisplet.Run

import Lisplet.Reader.Descent
import Mathlib.Tactic.Common

/-! A result of reading by recursive descent stays the same with any higher limit. -/

namespace Lisplet.Reader.Descent

def Refines {α : Type} (x y : Reading α) : Prop :=
  ∀ r, x = some r → y = some r

variable {α β : Type} {options : Options} {limit more rounds rounds' : ℕ} {go go' : Parser Value}

lemma Refines.refl (x : Reading α) : Refines x x :=
  fun _ h => h

lemma refines_none (x : Reading α) : Refines none x :=
  nofun

lemma Refines.bind {x y : Reading α} {f g : α → Reading β} (h : Refines x y)
    (hf : ∀ a, Refines (f a) (g a)) : Refines (x >>= f) (y >>= g) := by
  intro r hr
  cases hx : x with
  | none =>
    rw [hx] at hr
    cases hr
  | some outcome =>
    rw [hx] at hr
    rw [h outcome hx]
    cases outcome with
    | error o => exact hr
    | ok a => exact hf a r hr

lemma many_refines (p : Parser α) (h : rounds ≤ more) (text : List Char) :
    Refines (many p rounds text) (many p more text) := by
  induction rounds generalizing more text with
  | zero => exact refines_none _
  | succ rounds ih =>
    obtain ⟨more, rfl⟩ := Nat.exists_eq_add_of_lt h
    rw [many, many]
    split
    · exact .refl _
    · exact .refl _
    · split
      · exact .refl _
      · exact ih (Nat.le_add_right ..) _

lemma atmosphere_refines (h : limit ≤ more) (text : List Char) :
    Refines (atmosphere limit options text) (atmosphere more options text) :=
  (many_refines _ h text).bind fun _ => .refl _

lemma items_refines (h : limit ≤ more) (hgo : ∀ text, Refines (go text) (go' text))
    (hr : rounds ≤ rounds') (b : Bracket) (read : List Value) (text : List Char) :
    Refines (items limit options go b rounds read text)
      (items more options go' b rounds' read text) := by
  induction rounds generalizing rounds' read text with
  | zero => exact refines_none _
  | succ rounds ih =>
    obtain ⟨rounds', rfl⟩ := Nat.exists_eq_add_of_lt hr
    rw [items, items]
    refine (atmosphere_refines h text).bind fun ((), rest) => ?_
    cases rest with
    | nil => exact .refl _
    | cons c cs =>
      cases hc : Bracket.ofCloser? c with
      | some closer =>
        simp only [hc]
        exact .refl _
      | none =>
        simp only [hc]
        exact (hgo _).bind fun _ => ih (Nat.le_add_right ..) _ _

lemma list_refines (h : limit ≤ more) (hgo : ∀ text, Refines (go text) (go' text))
    (text : List Char) : Refines (list limit options go text) (list more options go' text) :=
  (Refines.refl _).bind fun _ => items_refines h hgo h _ _ _

lemma quote_refines (h : limit ≤ more) (hgo : ∀ text, Refines (go text) (go' text))
    (text : List Char) : Refines (quote limit options go text) (quote more options go' text) := by
  refine (Refines.refl _).bind fun (_, rest) => ?_
  refine (atmosphere_refines h rest).bind fun ((), rest) => ?_
  dsimp only
  split
  · exact .refl _
  · exact (hgo _).bind fun _ => .refl _

lemma construct_refines (h : limit ≤ more) (hgo : ∀ text, Refines (go text) (go' text))
    (text : List Char) :
    Refines (construct limit options go text) (construct more options go' text) := by
  cases text with
  | nil => exact .refl _
  | cons c cs =>
    rw [construct, construct]
    split_ifs
    · exact list_refines h hgo _
    · exact .refl _
    · exact .refl _
    · exact quote_refines h hgo _
    · exact .refl _
    · exact .refl _

lemma nested_refines {depth depth' : ℕ} (h : limit ≤ more) (hd : depth ≤ depth')
    (text : List Char) :
    Refines (nested limit options depth text) (nested more options depth' text) := by
  induction depth generalizing depth' text with
  | zero => exact refines_none _
  | succ depth ih =>
    obtain ⟨depth', rfl⟩ := Nat.exists_eq_add_of_lt hd
    exact construct_refines h (fun text => ih (Nat.le_add_right ..) text) text

lemma form_refines (h : limit ≤ more) (text : List Char) :
    Refines (form limit options text) (form more options text) :=
  nested_refines h h text

lemma topLevel_refines (h : limit ≤ more) (hr : rounds ≤ rounds') (whole : List Char)
    (read : List (ℕ × Value)) (text : List Char) :
    Refines (topLevel limit options whole rounds read text)
      (topLevel more options whole rounds' read text) := by
  induction rounds generalizing rounds' read text with
  | zero => exact refines_none _
  | succ rounds ih =>
    obtain ⟨rounds', rfl⟩ := Nat.exists_eq_add_of_lt hr
    rw [topLevel, topLevel]
    refine (atmosphere_refines h text).bind fun ((), rest) => ?_
    dsimp only
    split
    · exact .refl _
    · exact (form_refines h rest).bind fun _ => (Refines.refl _).bind fun _ =>
        ih (Nat.le_add_right ..) _ _

end Lisplet.Reader.Descent

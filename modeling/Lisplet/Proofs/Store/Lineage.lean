import Lisplet.Proofs.Store.Frames
import Mathlib.Data.List.Perm.Subperm
import Mathlib.Order.Basic

/-! The frames around each frame. They are settled when a frame is made and stay the same. -/

namespace Lisplet

/-- What is on record under each number. An entry is never changed or taken back. -/
structure Ledger (α : Type) where
  get? : ℕ → Option α

namespace Ledger

variable {α : Type} {l : Ledger α} {k other : ℕ} {a b : α}

instance : Preorder (Ledger α) where
  le l l' := ∀ k a, l.get? k = some a → l'.get? k = some a
  le_refl _ _ _ h := h
  le_trans _ _ _ h h' k a hk := h' k a (h k a hk)

def empty : Ledger α := ⟨fun _ => none⟩

def enter (l : Ledger α) (k : ℕ) (a : α) : Ledger α :=
  ⟨Function.update l.get? k (some a)⟩

lemma get?_enter_self : (l.enter k a).get? k = some a :=
  Function.update_self ..

lemma get?_enter_of_ne (h : other ≠ k) : (l.enter k a).get? other = l.get? other :=
  Function.update_of_ne h ..

lemma le_enter (h : l.get? k = none) : l ≤ l.enter k a := by
  intro other b hb
  rwa [get?_enter_of_ne]
  rintro rfl
  rw [h] at hb
  cases hb

lemma eq_of_le {l' : Ledger α} (h : l ≤ l') (ha : l.get? k = some a)
    (hb : l'.get? k = some b) : a = b :=
  Option.some.inj ((h k a ha).symm.trans hb)

end Ledger

abbrev Lineage := Ledger (List ℕ)

namespace Lineage

variable {l l' : Lineage} {c p : Scope} {store : Store} {outer : Option Scope} {bindings : Bindings}
  {name : String} {v : Value} {index k : ℕ}

def Has (l : Lineage) (c : Scope) : Prop :=
  l.get? c.frame = some c.outer

lemma Has.mono (h : l.Has c) (hl : l ≤ l') : l'.Has c :=
  hl _ _ h

structure Fits (l : Lineage) (store : Store) : Prop where
  known : ∀ k, (l.get? k).isSome ↔ k < store.frames.size
  parent : ∀ c p, l.Has c → c.parent? = some p → l.Has p ∧ p.frame < c.frame

lemma Fits.lt (h : l.Fits store) (hc : l.Has c) : c.frame < store.frames.size :=
  (h.known c.frame).1 (Option.isSome_of_eq_some hc)

lemma Fits.get?_size (h : l.Fits store) : l.get? store.frames.size = none :=
  Option.not_isSome_iff_eq_none.1 fun hsome => Nat.lt_irrefl _ ((h.known _).1 hsome)

theorem Fits.path (h : l.Fits store) (hc : l.Has c) :
    c.path.Pairwise (· > ·) ∧ ∀ k ∈ c.path, k < store.frames.size := by
  obtain ⟨frame, outer⟩ := c
  induction outer generalizing frame with
  | nil =>
    refine ⟨List.pairwise_singleton _ _, fun k hk => ?_⟩
    obtain rfl := List.mem_singleton.1 hk
    exact h.lt hc
  | cons around outer ih =>
    -- the scope around this one is again in the lineage, and its frame is older
    obtain ⟨hp, hlt⟩ := h.parent _ _ hc rfl
    obtain ⟨hsorted, hbound⟩ := ih around hp
    have hall : ∀ k ∈ around :: outer, k < frame := by
      refine List.forall_mem_cons.2 ⟨hlt, fun k hk => ?_⟩
      exact Nat.lt_trans (List.rel_of_pairwise_cons hsorted hk) hlt
    exact ⟨.cons hall hsorted, List.forall_mem_cons.2 ⟨h.lt hc, hbound⟩⟩

lemma Fits.length_path_le (h : l.Fits store) (hc : l.Has c) :
    c.path.length ≤ store.frames.size := by
  obtain ⟨hsorted, hbound⟩ := h.path hc
  have hnodup : c.path.Nodup := hsorted.imp fun hlt => Nat.ne_of_gt hlt
  have hsub : c.path ⊆ List.range store.frames.size := fun k hk => List.mem_range.2 (hbound k hk)
  exact (List.subperm_of_subset hnodup hsub).length_le.trans_eq List.length_range

lemma Fits.of_frames_eq {store' : Store} (h : l.Fits store)
    (heq : store'.frames = store.frames) : l.Fits store' where
  known := heq ▸ h.known
  parent := h.parent

lemma Fits.bind (h : l.Fits store) : l.Fits (store.bind index name v) where
  known k := by rw [Store.size_bind, h.known]
  parent := h.parent

lemma Fits.assign? {store' : Store} (h : l.Fits store)
    (hstore : store.assign? c name v = some store') : l.Fits store' := by
  obtain ⟨index, _, rfl⟩ := Store.assign?_eq_some.1 hstore
  exact h.bind

def extend (l : Lineage) (store : Store) (outer : Option Scope) : Lineage :=
  l.enter store.frames.size ((outer.map Scope.path).getD [])

lemma Fits.le_extend (h : l.Fits store) : l ≤ l.extend store outer :=
  Ledger.le_enter h.get?_size

lemma has_extend : (l.extend store outer).Has (store.extend outer bindings).1 :=
  Ledger.get?_enter_self

lemma Fits.extend (h : l.Fits store) (houter : ∀ c ∈ outer, l.Has c) :
    (l.extend store outer).Fits (store.extend outer bindings).2 where
  known k := by
    rw [Store.size_extend, Lineage.extend]
    by_cases hk : k = store.frames.size
    · subst hk
      simp [Ledger.get?_enter_self]
    · rw [Ledger.get?_enter_of_ne hk, h.known]
      omega
  parent c p hc hp := by
    by_cases hk : c.frame = store.frames.size
    · rw [Has, hk, Lineage.extend, Ledger.get?_enter_self] at hc
      cases outer with
      | none =>
        rw [Scope.parent?, ← Option.some.inj hc] at hp
        cases hp
      | some d =>
        rw [Scope.parent?, ← Option.some.inj hc] at hp
        cases hp
        have hd := houter d rfl
        exact ⟨hd.mono h.le_extend, hk ▸ h.lt hd⟩
    · have hold : l.Has c := by rwa [Has, Lineage.extend, Ledger.get?_enter_of_ne hk] at hc
      obtain ⟨hhas, hlt⟩ := h.parent c p hold hp
      exact ⟨hhas.mono h.le_extend, hlt⟩

lemma Fits.root (h : l.Fits store) :
    (l.extend store none).Fits (store.extend none bindings).2 :=
  h.extend nofun

lemma fits_empty : Fits .empty .empty where
  known k := iff_of_false Bool.false_ne_true (Nat.not_lt_zero k)
  parent _ _ hc := nomatch hc

end Lineage

end Lisplet

import Lisplet.Run
import Lisplet.Proofs.Store.Lineage

/-! Where a name is found from a scope, and what definitions and assignments change about that. -/

namespace Lisplet

lemma Scope.outward_induction {motive : Scope → Prop}
    (step : ∀ t, (∀ p, t.parent? = some p → motive p) → motive t) (t : Scope) : motive t := by
  obtain ⟨frame, outer⟩ := t
  induction outer generalizing frame with
  | nil => exact step _ nofun
  | cons around outer ih =>
    refine step _ fun p hp => ?_
    cases hp
    exact ih around

namespace Store

variable {store : Store} {s t p q : Scope} {name other : String} {v : Value} {index k : ℕ}

lemma path_of_parent (hp : t.parent? = some p) : t.path = t.frame :: p.path := by
  obtain ⟨frame, _ | ⟨around, outer⟩⟩ := t
  · cases hp
  · cases hp
    rfl

lemma path_of_outermost (hp : t.parent? = none) : t.path = [t.frame] := by
  obtain ⟨frame, _ | ⟨around, outer⟩⟩ := t
  · rfl
  · cases hp

lemma get?_here (h : (store.frame t.frame).contains name) :
    store.get? t name = (store.frame t.frame).get? name := by
  obtain ⟨u, hu⟩ := Option.isSome_iff_exists.1 h
  rw [get?, Scope.path, List.findSome?_cons, hu]

lemma get?_outwards (h : ¬ (store.frame t.frame).contains name) (hp : t.parent? = some p) :
    store.get? t name = store.get? p name := by
  rw [get?, path_of_parent hp, List.findSome?_cons, Bindings.not_contains_iff.1 h, get?]

lemma get?_outermost (h : ¬ (store.frame t.frame).contains name) (hp : t.parent? = none) :
    store.get? t name = none := by
  rw [get?, path_of_outermost hp, List.findSome?_cons, Bindings.not_contains_iff.1 h]
  rfl

lemma get?_single : store.get? ⟨k, []⟩ name = (store.frame k).get? name :=
  List.findSome?_singleton

lemma get?_inside {outer : List ℕ} (h : (store.frame k).get? name = none) :
    store.get? ⟨k, index :: outer⟩ name = store.get? ⟨index, outer⟩ name :=
  get?_outwards (t := ⟨k, index :: outer⟩) (Bindings.not_contains_iff.2 h) rfl

lemma holder?_here (h : (store.frame t.frame).contains name) :
    store.holder? t name = some t.frame :=
  List.find?_cons_of_pos (p := fun k => (store.frame k).contains name) h

lemma holder?_outwards (h : ¬ (store.frame t.frame).contains name) (hp : t.parent? = some p) :
    store.holder? t name = store.holder? p name := by
  rw [holder?, path_of_parent hp]
  exact List.find?_cons_of_neg (p := fun k => (store.frame k).contains name) h

lemma holder?_outermost (h : ¬ (store.frame t.frame).contains name) (hp : t.parent? = none) :
    store.holder? t name = none := by
  rw [holder?, path_of_outermost hp]
  exact List.find?_cons_of_neg (p := fun k => (store.frame k).contains name) h

inductive Reaches (store : Store) (name : String) : Scope → Scope → Prop
  | here {s : Scope} : Reaches store name s s
  | outwards {t p s : Scope} (hname : ¬ (store.frame t.frame).contains name)
      (hparent : t.parent? = some p) (h : Reaches store name p s) : Reaches store name t s

structure Finds (store : Store) (name : String) (t p : Scope) : Prop where
  reaches : store.Reaches name t p
  binds : (store.frame p.frame).contains name

lemma finds_here (h : (store.frame t.frame).contains name) : store.Finds name t p ↔ p = t := by
  constructor
  · rintro ⟨_ | ⟨hname, _, _⟩, _⟩
    · rfl
    · exact absurd h hname
  · rintro rfl
    exact ⟨.here, h⟩

lemma finds_outwards (h : ¬ (store.frame t.frame).contains name) (hp : t.parent? = some p) :
    store.Finds name t q ↔ store.Finds name p q := by
  constructor
  · rintro ⟨_ | ⟨_, hparent, hreaches⟩, hbinds⟩
    · exact absurd hbinds h
    · obtain rfl := Option.some.inj (hp.symm.trans hparent)
      exact ⟨hreaches, hbinds⟩
  · rintro ⟨hreaches, hbinds⟩
    exact ⟨.outwards h hp hreaches, hbinds⟩

lemma not_finds_outermost (h : ¬ (store.frame t.frame).contains name) (hp : t.parent? = none) :
    ¬ store.Finds name t p := by
  rintro ⟨_ | ⟨_, hparent, _⟩, hbinds⟩
  · exact h hbinds
  · exact nomatch hp.symm.trans hparent

lemma Finds.unique (hp : store.Finds name t p) (hq : store.Finds name t q) : p = q := by
  induction t using Scope.outward_induction with
  | step t ih =>
    by_cases hname : (store.frame t.frame).contains name
    · rw [(finds_here hname).1 hp, (finds_here hname).1 hq]
    · cases hparent : t.parent? with
      | none => exact absurd hp (not_finds_outermost hname hparent)
      | some around =>
        rw [finds_outwards hname hparent] at hp hq
        exact ih around hparent hp hq

lemma Finds.common_iff (hp : store.Finds name s p) :
    (∃ q, store.Finds name t q ∧ store.Finds name s q) ↔ store.Reaches name t p := by
  constructor
  · rintro ⟨q, hq, hq'⟩
    rw [hp.unique hq']
    exact hq.reaches
  · intro hreaches
    exact ⟨p, ⟨hreaches, hp.binds⟩, hp⟩

lemma holder?_eq_some_iff : store.holder? t name = some k ↔
    ∃ p, store.Finds name t p ∧ p.frame = k := by
  induction t using Scope.outward_induction with
  | step t ih =>
    by_cases hname : (store.frame t.frame).contains name
    · simp only [holder?_here hname, finds_here hname, exists_eq_left, Option.some.injEq]
    · cases hparent : t.parent? with
      | none =>
        rw [holder?_outermost hname hparent]
        exact iff_of_false nofun fun ⟨_, hp, _⟩ => not_finds_outermost hname hparent hp
      | some around =>
        simp only [holder?_outwards hname hparent, finds_outwards hname hparent]
        exact ih around hparent

lemma holder?_eq_none_iff : store.holder? t name = none ↔ store.get? t name = none := by
  rw [← Option.not_isSome_iff_eq_none (o := store.get? t name), isSome_get?, holder?,
    List.find?_eq_none]
  push Not
  rfl

lemma Reaches.get?_eq (h : store.Reaches name t s) : store.get? t name = store.get? s name := by
  induction h with
  | here => rfl
  | outwards hname hparent _ ih => rw [get?_outwards hname hparent, ih]

lemma get?_frame_bind_of_ne (h : other ≠ name) :
    ((store.bind index name v).frame k).get? other = (store.frame k).get? other := by
  rcases frame_bind_cases store index k name v with heq | ⟨-, heq⟩
  · rw [heq]
  · rw [heq, Bindings.get?_insert, if_neg h]

lemma get?_bind_of_ne (h : other ≠ name) :
    (store.bind index name v).get? t other = store.get? t other := by
  simp only [get?, get?_frame_bind_of_ne h]

lemma contains_frame_bind (h : (store.frame index).contains name) :
    ((store.bind index name v).frame k).contains other ↔ (store.frame k).contains other := by
  rcases frame_bind_cases store index k name v with heq | ⟨rfl, heq⟩
  · rw [heq]
  · rw [heq, Bindings.contains_insert]
    refine ⟨fun hother => hother.elim ?_ id, .inr⟩
    rintro rfl
    exact h

end Store

namespace Lineage

variable {l : Lineage} {store : Store} {s t p : Scope} {name other : String} {v : Value}

lemma Has.eq_of_frame_eq (hs : l.Has s) (ht : l.Has t) (h : t.frame = s.frame) : t = s := by
  obtain ⟨frame, outer⟩ := t
  obtain ⟨frame', outer'⟩ := s
  cases h
  obtain rfl : outer = outer' := Option.some.inj (ht.symm.trans hs)
  rfl

lemma Fits.reaches (h : l.Fits store) (ht : l.Has t) (hreaches : store.Reaches name t s) :
    l.Has s ∧ s.frame ≤ t.frame := by
  induction hreaches with
  | here => exact ⟨ht, Nat.le_refl _⟩
  | outwards _ hparent _ ih =>
    obtain ⟨hp, hlt⟩ := h.parent _ _ ht hparent
    obtain ⟨hs, hle⟩ := ih hp
    exact ⟨hs, Nat.le_trans hle (Nat.le_of_lt hlt)⟩

lemma Fits.reaches_bind (h : l.Fits store) (ht : l.Has t) (hreaches : store.Reaches name t s) :
    (store.bind s.frame name v).Reaches name t s := by
  induction hreaches with
  | here => exact .here
  | @outwards t p s hname hparent hreaches ih =>
    -- the frames on the way are newer than the one that is written
    obtain ⟨hp, hlt⟩ := h.parent _ _ ht hparent
    have hne : t.frame ≠ s.frame := Nat.ne_of_gt (Nat.lt_of_le_of_lt (h.reaches hp hreaches).2 hlt)
    refine .outwards ?_ hparent (ih hp)
    rwa [Store.frame_bind_of_ne hne]

lemma Fits.get?_bind_of_reaches (h : l.Fits store) (ht : l.Has t)
    (hreaches : store.Reaches name t s) :
    (store.bind s.frame name v).get? t name = some v := by
  have hs : l.Has s := (h.reaches ht hreaches).1
  have hget : ((store.bind s.frame name v).frame s.frame).get? name = some v := by
    rw [Store.frame_bind_self (h.lt hs), Bindings.get?_insert, if_pos rfl]
  rw [(h.reaches_bind ht hreaches).get?_eq, Store.get?_here (Option.isSome_of_eq_some hget), hget]

lemma Fits.get?_bind_of_not_reaches (h : l.Fits store) (hs : l.Has s) (ht : l.Has t)
    (hreaches : ¬ store.Reaches name t s) :
    (store.bind s.frame name v).get? t name = store.get? t name := by
  induction t using Scope.outward_induction with
  | step t ih =>
    have hne : t.frame ≠ s.frame := by
      intro heq
      obtain rfl := hs.eq_of_frame_eq ht heq
      exact hreaches .here
    have hframe : (store.bind s.frame name v).frame t.frame = store.frame t.frame :=
      Store.frame_bind_of_ne hne
    by_cases hname : (store.frame t.frame).contains name
    · rw [Store.get?_here hname, Store.get?_here (hframe ▸ hname), hframe]
    · cases hparent : t.parent? with
      | none =>
        rw [Store.get?_outermost hname hparent, Store.get?_outermost (hframe ▸ hname) hparent]
      | some p =>
        rw [Store.get?_outwards hname hparent, Store.get?_outwards (hframe ▸ hname) hparent]
        refine ih p hparent (h.parent _ _ ht hparent).1 fun hp => ?_
        exact hreaches (.outwards hname hparent hp)

lemma Fits.get?_bind (h : l.Fits store) (hs : l.Has s) (ht : l.Has t) :
    (other = name ∧ store.Reaches name t s → (store.bind s.frame name v).get? t other = some v) ∧
      (¬ (other = name ∧ store.Reaches name t s) →
        (store.bind s.frame name v).get? t other = store.get? t other) := by
  constructor
  · rintro ⟨rfl, hreaches⟩
    exact h.get?_bind_of_reaches ht hreaches
  · intro hnot
    by_cases hname : other = name
    · subst hname
      exact h.get?_bind_of_not_reaches hs ht fun hreaches => hnot ⟨rfl, hreaches⟩
    · exact Store.get?_bind_of_ne hname

/-- What a definition and an assignment change about the values that are found: a definition is
seen from where its scope is reached before the name is found, and an assignment from where the
name is found at the same scope as from its own. -/
theorem Fits.lookups (l : Lineage) (w : World) (s : Scope) (name : String) (v : Value)
    (h : l.Fits w.store) (hs : l.Has s) :
    (∃ w', Run.define s name v w = some (.ok (), w') ∧ ∀ t other, l.Has t →
      (other = name ∧ w.store.Reaches name t s → w'.store.get? t other = some v) ∧
      (¬ (other = name ∧ w.store.Reaches name t s) →
        w'.store.get? t other = w.store.get? t other)) ∧
    ∃ r w', Run.assign s name v w = some (r, w') ∧
      (r = .error (.unbound name) ↔ w.store.get? s name = none) ∧
      (r = .error (.unbound name) → w' = w) ∧
      (r ≠ .error (.unbound name) → r = .ok v ∧
        w'.store.frames.size = w.store.frames.size ∧
        (∀ k other, (w'.store.frame k).contains other ↔ (w.store.frame k).contains other) ∧
        ∀ t other, l.Has t →
          (other = name ∧ (∃ p, w.store.Finds name t p ∧ w.store.Finds name s p) →
            w'.store.get? t other = some v) ∧
          (¬ (other = name ∧ ∃ p, w.store.Finds name t p ∧ w.store.Finds name s p) →
            w'.store.get? t other = w.store.get? t other)) := by
  refine ⟨⟨_, rfl, fun t other ht => h.get?_bind hs ht⟩, ?_⟩
  cases hholder : w.store.holder? s name with
  | none =>
    have hnone : w.store.get? s name = none := Store.holder?_eq_none_iff.1 hholder
    refine ⟨.error (.unbound name), w, ?_, iff_of_true rfl hnone, fun _ => rfl, fun hne => ?_⟩
    · rw [Run.assign, Store.assign?, hholder]
      rfl
    · exact absurd rfl hne
  | some k =>
    -- to assign is to define anew at the scope where the name is found
    obtain ⟨p, hfinds, rfl⟩ := Store.holder?_eq_some_iff.1 hholder
    have hp : l.Has p := (h.reaches hs hfinds.reaches).1
    have hsome : w.store.get? s name ≠ none := by
      rw [Ne, ← Store.holder?_eq_none_iff, hholder]
      exact Option.some_ne_none _
    have hok : (.ok v : Except Fault Value) ≠ .error (.unbound name) := by
      intro heq
      cases heq
    refine ⟨.ok v, { w with store := w.store.bind p.frame name v }, ?_,
      iff_of_false hok hsome, fun heq => absurd heq hok, fun _ => ⟨rfl, Store.size_bind, ?_, ?_⟩⟩
    · rw [Run.assign, Store.assign?, hholder]
      rfl
    · exact fun _ _ => Store.contains_frame_bind hfinds.binds
    · intro t other ht
      rw [hfinds.common_iff]
      exact h.get?_bind hp ht

def nested : World :=
  ⟨⟨#[[("x", .number 1)], []], 0⟩, .empty⟩

def nestedFrames : Lineage :=
  (Ledger.empty.enter 0 []).enter 1 [0]

theorem Fits.lookups_nested : nestedFrames.Fits nested.store ∧
    (∃ w', Run.define ⟨1, [0]⟩ "x" (.number 2) nested = some (.ok (), w') ∧
      w'.store.get? ⟨1, [0]⟩ "x" = some (.number 2) ∧
      w'.store.get? ⟨0, []⟩ "x" = some (.number 1)) ∧
    ∃ w', Run.assign ⟨1, [0]⟩ "x" (.number 2) nested = some (.ok (.number 2), w') ∧
      w'.store.get? ⟨0, []⟩ "x" = some (.number 2) := by
  have hroot : Fits (Ledger.empty.enter 0 []) ⟨#[[("x", .number 1)]], 0⟩ := fits_empty.root
  have hhas : Has (Ledger.empty.enter 0 []) ⟨0, []⟩ := Ledger.get?_enter_self
  have hroots : ∀ c ∈ some (⟨0, []⟩ : Scope), Has (Ledger.empty.enter 0 []) c := by
    rintro _ ⟨⟩
    exact hhas
  have hfits : nestedFrames.Fits nested.store := @Fits.extend _ _ _ [] hroot hroots
  have houter : nestedFrames.Has ⟨0, []⟩ := hhas.mono (@Fits.le_extend _ _ (some ⟨0, []⟩) hroot)
  have hinner : nestedFrames.Has ⟨1, [0]⟩ := Ledger.get?_enter_self
  have hapart : ¬ nested.store.Reaches "x" ⟨0, []⟩ ⟨1, [0]⟩ := by
    intro hreaches
    exact absurd (hfits.reaches houter hreaches).2 (by decide)
  have hfound : nested.store.Finds "x" ⟨0, []⟩ ⟨0, []⟩ := ⟨.here, rfl⟩
  have hfound' : nested.store.Finds "x" ⟨1, [0]⟩ ⟨0, []⟩ := ⟨.outwards nofun rfl .here, rfl⟩
  obtain ⟨⟨w₁, hdefine, hget₁⟩, r, w₂, hassign, herror, -, hok⟩ :=
    Fits.lookups nestedFrames nested ⟨1, [0]⟩ "x" (.number 2) hfits hinner
  obtain ⟨rfl, -, -, hget₂⟩ := hok fun heq => nomatch herror.1 heq
  refine ⟨hfits, ⟨w₁, hdefine, ?_, ?_⟩, w₂, hassign, ?_⟩
  · exact (hget₁ _ "x" hinner).1 ⟨rfl, .here⟩
  · exact (hget₁ _ "x" houter).2 fun h => hapart h.2
  · exact (hget₂ _ "x" houter).1 ⟨rfl, _, hfound, hfound'⟩

end Lineage

end Lisplet

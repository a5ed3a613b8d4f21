import Lisplet.Proofs.Store.Frames
import Mathlib.Data.List.Nodup
import Mathlib.Data.String.Basic

/-! The order of names. Bindings in increasing order of their names bind each name once, so what is
looked up is what is listed, and there is one way to list it. -/

namespace Lisplet

namespace Bindings

variable {name : String} {v : Value} {entry : String × Value} {bindings later : Bindings}

def Ordered (bindings : Bindings) : Prop :=
  bindings.names.Pairwise (· < ·)

lemma ordered_cons : Ordered (entry :: bindings) ↔
    (∀ other ∈ bindings, entry.1 < other.1) ∧ bindings.Ordered :=
  List.pairwise_cons.trans (and_congr_left' List.forall_mem_map)

lemma Ordered.insert (h : bindings.Ordered) : (insert name v bindings).Ordered := by
  induction bindings with
  | nil => exact List.pairwise_singleton ..
  | cons head rest ih =>
    obtain ⟨key, w⟩ := head
    obtain ⟨hkey, hrest⟩ := ordered_cons.1 h
    rw [Bindings.insert]
    split
    · next hname => exact ordered_cons.2 ⟨hname ▸ hkey, hrest⟩
    · next hname =>
      split
      · next hlt =>
        exact ordered_cons.2
          ⟨List.forall_mem_cons.2 ⟨hlt, fun other ho => hlt.trans (hkey other ho)⟩, h⟩
      · next hlt =>
        refine ordered_cons.2 ⟨fun other ho => ?_, ih hrest⟩
        rcases mem_insert ho with rfl | ho
        · exact (not_lt.1 hlt).lt_of_ne (Ne.symm hname)
        · exact hkey other ho

lemma Ordered.override (h : bindings.Ordered) (later : Bindings) :
    (bindings.override later).Ordered := by
  induction later generalizing bindings with
  | nil => exact h
  | cons _ later ih => exact ih h.insert

lemma ordered_nil : Ordered [] :=
  List.Pairwise.nil

lemma ordered_ofList (entries : List (String × Value)) : (ofList entries).Ordered :=
  ordered_nil.override entries

lemma Ordered.nodup (h : bindings.Ordered) : bindings.names.Nodup :=
  List.Pairwise.imp ne_of_lt h

lemma get?_eq_some_iff (h : bindings.names.Nodup) :
    bindings.get? name = some v ↔ (name, v) ∈ bindings := by
  refine ⟨mem_of_get?, fun hmem => ?_⟩
  obtain ⟨before, after, rfl⟩ := List.append_of_mem hmem
  refine List.lookup_eq_some_iff.2 ⟨before, after, rfl, fun entry he => bne_iff_ne.2 ?_⟩
  rw [names, List.map_append, List.map_cons] at h
  rintro rfl
  exact List.disjoint_of_nodup_append h (List.mem_map_of_mem he) List.mem_cons_self

lemma get?_perm (h : bindings.Perm later) (hnodup : bindings.names.Nodup) :
    later.get? name = bindings.get? name := by
  have hnames : later.names.Nodup := (h.map Prod.fst).nodup_iff.1 hnodup
  refine Option.ext fun v => ?_
  rw [get?_eq_some_iff hnames, get?_eq_some_iff hnodup, h.mem_iff]

lemma get?_override (h : later.names.Nodup) :
    (bindings.override later).get? name = (later.get? name).or (bindings.get? name) := by
  cases hv : later.get? name with
  | some v =>
    rw [get?_override_of_mem h (mem_of_get? hv)]
    rfl
  | none =>
    refine get?_override_of_not_mem fun hname => ?_
    obtain ⟨⟨_, v⟩, hmem, rfl⟩ := List.mem_map.1 hname
    exact nomatch hv.symm.trans ((get?_eq_some_iff h).2 hmem)

lemma Ordered.ext (h : bindings.Ordered) (h' : later.Ordered)
    (hget : ∀ name, later.get? name = bindings.get? name) : later = bindings := by
  have hasymm : ∀ a b, a ∈ later → b ∈ bindings → a.1 < b.1 → b.1 < a.1 → a = b :=
    fun _ _ _ _ hlt hgt => absurd hlt hgt.asymm
  have hsame : ∀ entry, entry ∈ later ↔ entry ∈ bindings := fun ⟨name, v⟩ => by
    rw [← get?_eq_some_iff h'.nodup, ← get?_eq_some_iff h.nodup, hget]
  refine List.Perm.eq_of_pairwise hasymm (List.pairwise_map.1 h') (List.pairwise_map.1 h) ?_
  exact (List.perm_ext_iff_of_nodup (.of_map _ h'.nodup) (.of_map _ h.nodup)).2 hsame

end Bindings

namespace Store

variable {store store' : Store} {bindings : Bindings} {scope : Scope} {name : String} {v : Value}
  {index : ℕ} {path : List ℕ}

def Ordered (store : Store) : Prop :=
  ∀ k, (store.frame k).Ordered

lemma ordered_empty : empty.Ordered :=
  fun _ => Bindings.ordered_nil

lemma Ordered.of_frames_eq (h : store.Ordered) (heq : store'.frames = store.frames) :
    store'.Ordered := by
  intro k
  rw [frame, heq]
  exact h k

lemma Ordered.bind (h : store.Ordered) : (store.bind index name v).Ordered := by
  intro k
  rcases frame_bind_cases store index k name v with heq | ⟨-, heq⟩
  · exact heq ▸ h k
  · exact heq ▸ (h k).insert

lemma Ordered.assign? (h : store.Ordered) (hstore : store.assign? scope name v = some store') :
    store'.Ordered := by
  obtain ⟨index, -, rfl⟩ := assign?_eq_some.1 hstore
  exact h.bind

lemma Ordered.extend (h : store.Ordered) (outer : Option Scope) (hbindings : bindings.Ordered) :
    (store.extend outer bindings).2.Ordered := by
  intro k
  by_cases hk : k = store.frames.size
  · subst hk
    rwa [frame_extend_self]
  · rw [frame_extend_of_ne hk]
    exact h k

lemma ordered_visibleFrom (store : Store) (path : List ℕ) : (store.visibleFrom path).Ordered := by
  induction path with
  | nil => exact Bindings.ordered_nil
  | cons index outer ih => exact ih.override _

lemma get?_visibleFrom (h : ∀ k ∈ path, (store.frame k).names.Nodup) :
    (store.visibleFrom path).get? name = path.findSome? fun k => (store.frame k).get? name := by
  induction path with
  | nil => rfl
  | cons index outer ih =>
    obtain ⟨hindex, houter⟩ := List.forall_mem_cons.1 h
    rw [visibleFrom, Bindings.get?_override hindex, ih houter, List.findSome?_cons]
    cases (store.frame index).get? name <;> rfl

lemma get?_visible (h : ∀ k ∈ scope.path, (store.frame k).names.Nodup) :
    (store.visible scope).get? name = store.get? scope name :=
  get?_visibleFrom h

lemma ordered_visible (store : Store) (scope : Scope) : (store.visible scope).Ordered :=
  store.ordered_visibleFrom scope.path

lemma mem_visible_iff (h : store.Ordered) :
    (name, v) ∈ store.visible scope ↔ store.get? scope name = some v := by
  rw [← get?_visible fun k _ => (h k).nodup]
  exact (Bindings.get?_eq_some_iff (store.ordered_visible scope).nodup).symm

lemma visible_perm (h : store.Ordered) (hperm : ∀ k, (store.frame k).Perm (store'.frame k)) :
    store'.visible scope = store.visible scope := by
  refine (store.ordered_visible scope).ext (store'.ordered_visible scope) fun name => ?_
  have hnodup (k : ℕ) : (store'.frame k).names.Nodup :=
    ((hperm k).map Prod.fst).nodup_iff.1 (h k).nodup
  rw [get?_visible fun k _ => hnodup k, get?_visible fun k _ => (h k).nodup, get?, get?]
  congr 1
  exact funext fun k => Bindings.get?_perm (hperm k) (h k).nodup

end Store

end Lisplet

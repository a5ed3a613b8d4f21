import Lisplet.Store
import Mathlib.Data.List.Basic

/-! What the operations of a store do to its frames. -/

namespace Lisplet

namespace Bindings

variable {name other : String} {v w : Value} {entry : String × Value} {bindings later : Bindings}

lemma mem_insert (h : entry ∈ insert name v bindings) : entry = (name, v) ∨ entry ∈ bindings := by
  induction bindings with
  | nil => exact .inl (List.mem_singleton.1 h)
  | cons head rest ih =>
    obtain ⟨other, w⟩ := head
    rw [insert] at h
    split at h
    · exact (List.mem_cons.1 h).imp_right (List.mem_cons_of_mem _)
    · split at h
      · exact List.mem_cons.1 h
      · rcases List.mem_cons.1 h with rfl | h
        · exact .inr List.mem_cons_self
        · exact (ih h).imp_right (List.mem_cons_of_mem _)

lemma mem_override (h : entry ∈ override bindings later) : entry ∈ bindings ∨ entry ∈ later := by
  induction later generalizing bindings with
  | nil => exact .inl h
  | cons head rest ih =>
    rcases ih h with h | h
    · rcases mem_insert h with rfl | h
      · exact .inr List.mem_cons_self
      · exact .inl h
    · exact .inr (List.mem_cons_of_mem _ h)

lemma mem_ofList {entries : List (String × Value)} (h : entry ∈ ofList entries) :
    entry ∈ entries :=
  (mem_override h).resolve_left List.not_mem_nil

lemma mem_of_get? (h : bindings.get? name = some v) : (name, v) ∈ bindings := by
  obtain ⟨before, after, rfl, _⟩ := List.lookup_eq_some_iff.1 h
  simp

lemma get?_cons :
    get? ((name, v) :: bindings) other = if other = name then some v else get? bindings other := by
  rw [get?, List.lookup_cons]
  split
  · next h => rw [if_pos (eq_of_beq h)]
  · next h => rw [if_neg (ne_of_beq_false h), get?]

lemma get?_insert :
    (insert name v bindings).get? other = if other = name then some v else bindings.get? other := by
  induction bindings with
  | nil => exact get?_cons
  | cons head rest ih =>
    obtain ⟨key, w⟩ := head
    rw [insert]
    split
    · next hkey =>
      rw [get?_cons, get?_cons, hkey]
      split <;> rfl
    · next hkey =>
      split
      · exact get?_cons
      · rw [get?_cons, get?_cons, ih]
        by_cases hother : other = name
        · rw [if_pos hother, if_pos hother, if_neg (hother ▸ hkey)]
        · rw [if_neg hother, if_neg hother]

lemma get?_override_of_not_mem (h : other ∉ later.map Prod.fst) :
    (override bindings later).get? other = bindings.get? other := by
  induction later generalizing bindings with
  | nil => rfl
  | cons entry later ih =>
    rw [List.map_cons, List.mem_cons, not_or] at h
    obtain ⟨hne, hlater⟩ := h
    exact (ih hlater).trans (get?_insert.trans (if_neg hne))

lemma not_mem_zip {names : List String} {vs : List Value} (h : name ∉ names) :
    name ∉ (names.zip vs).map Prod.fst := by
  rintro hmem
  obtain ⟨⟨_, v⟩, hentry, rfl⟩ := List.mem_map.1 hmem
  exact h (List.of_mem_zip hentry).1

lemma get?_override_of_mem (hnodup : (later.map Prod.fst).Nodup) (h : (name, v) ∈ later) :
    (override bindings later).get? name = some v := by
  induction later generalizing bindings with
  | nil => exact absurd h List.not_mem_nil
  | cons entry later ih =>
    obtain ⟨hfirst, hnodup⟩ := List.nodup_cons.1 hnodup
    rcases List.mem_cons.1 h with rfl | h
    · exact (get?_override_of_not_mem hfirst).trans (get?_insert.trans (if_pos rfl))
    · exact ih hnodup h

lemma get?_override_zip {names : List String} {vs : List Value} {i : ℕ} (hnodup : names.Nodup)
    (hlength : names.length = vs.length) (hi : i < names.length) :
    (override bindings (names.zip vs)).get? names[i] = vs[i]? := by
  have hnames : (names.zip vs).map Prod.fst = names := List.map_fst_zip (Nat.le_of_eq hlength)
  have hzip : i < (names.zip vs).length := by
    rw [List.length_zip]
    omega
  rw [List.getElem?_eq_getElem (hlength ▸ hi)]
  exact get?_override_of_mem (hnames.symm ▸ hnodup)
    (List.mem_iff_getElem.2 ⟨i, hzip, List.getElem_zip⟩)

lemma not_contains_iff : ¬ bindings.contains name ↔ bindings.get? name = none :=
  Option.not_isSome_iff_eq_none

lemma contains_insert : (insert name v bindings).contains other ↔
    other = name ∨ bindings.contains other := by
  rw [contains, contains, get?_insert]
  by_cases h : other = name <;> simp [h]

end Bindings

namespace Store

variable {store store' : Store} {scope : Scope} {outer : Option Scope} {bindings : Bindings}
  {name : String} {v : Value} {index k : ℕ}

lemma size_bind : (store.bind index name v).frames.size = store.frames.size :=
  Array.size_modify

lemma frame_bind_self (h : index < store.frames.size) :
    (store.bind index name v).frame index = (store.frame index).insert name v := by
  simp [frame, bind, Array.getElem_modify, h]

lemma frame_bind_of_ne (h : k ≠ index) : (store.bind index name v).frame k = store.frame k := by
  simp [frame, bind, Array.getElem?_modify, h.symm]

lemma frame_of_size_le (h : store.frames.size ≤ k) : store.frame k = [] := by
  simp [frame, h]

lemma lt_of_mem_frame {entry : String × Value} (h : entry ∈ store.frame k) :
    k < store.frames.size := by
  by_contra hle
  rw [frame_of_size_le (Nat.not_lt.1 hle)] at h
  exact List.not_mem_nil h

lemma frame_bind_cases (store : Store) (index k : ℕ) (name : String) (v : Value) :
    (store.bind index name v).frame k = store.frame k ∨
      k = index ∧ (store.bind index name v).frame k = (store.frame k).insert name v := by
  by_cases hk : k = index
  · subst hk
    by_cases hlt : k < store.frames.size
    · exact .inr ⟨rfl, frame_bind_self hlt⟩
    · rw [Nat.not_lt] at hlt
      rw [frame_of_size_le hlt, frame_of_size_le (by rwa [size_bind])]
      exact .inl rfl
  · exact .inl (frame_bind_of_ne hk)

lemma size_extend : (store.extend outer bindings).2.frames.size = store.frames.size + 1 :=
  Array.size_push bindings

lemma frame_extend_self : (store.extend outer bindings).2.frame store.frames.size = bindings := by
  simp [frame, extend]

lemma frame_extend_of_ne (h : k ≠ store.frames.size) :
    (store.extend outer bindings).2.frame k = store.frame k := by
  simp [frame, extend, Array.getElem?_push, h]

lemma assign?_eq_some : store.assign? scope name v = some store' ↔
    ∃ index, store.holder? scope name = some index ∧ store.bind index name v = store' := by
  rw [assign?, Option.map_eq_some_iff]

lemma holder?_eq_some (h : store.holder? scope name = some index) :
    index ∈ scope.path ∧ (store.frame index).contains name :=
  ⟨List.mem_of_find?_eq_some h, List.find?_some (p := fun k => (store.frame k).contains name) h⟩

lemma get?_eq_some (h : store.get? scope name = some v) :
    ∃ index ∈ scope.path, (store.frame index).get? name = some v :=
  List.exists_of_findSome?_eq_some h

lemma get?_congr (h : ∀ k ∈ scope.path, store'.frame k = store.frame k) (name : String) :
    store'.get? scope name = store.get? scope name := by
  rw [get?, get?]
  generalize scope.path = path at h
  induction path with
  | nil => rfl
  | cons k outer ih =>
    obtain ⟨hk, houter⟩ := List.forall_mem_cons.1 h
    rw [List.findSome?_cons, List.findSome?_cons, hk, ih houter]

lemma visible_congr (h : ∀ k ∈ scope.path, store'.frame k = store.frame k) :
    store'.visible scope = store.visible scope := by
  rw [visible, visible]
  generalize scope.path = path at h
  induction path with
  | nil => rfl
  | cons k outer ih =>
    obtain ⟨hk, houter⟩ := List.forall_mem_cons.1 h
    rw [visibleFrom, visibleFrom, hk, ih houter]

lemma isSome_get? : (store.get? scope name).isSome ↔
    ∃ k ∈ scope.path, (store.frame k).contains name := by
  rw [get?, List.findSome?_isSome_iff]
  rfl

lemma lt_of_contains (h : (store.frame index).contains name) : index < store.frames.size := by
  by_contra hle
  rw [frame_of_size_le (Nat.le_of_not_lt hle)] at h
  cases h

lemma mem_frame_bind {entry : String × Value} (h : entry ∈ (store.bind index name v).frame k) :
    entry = (name, v) ∧ k = index ∨ entry ∈ store.frame k := by
  rcases frame_bind_cases store index k name v with heq | ⟨hk, heq⟩
  · exact .inr (heq ▸ h)
  · rw [heq] at h
    exact (Bindings.mem_insert h).imp_left fun h => ⟨h, hk⟩

lemma mem_frame_extend {entry : String × Value} (outer : Option Scope)
    (h : entry ∈ (store.extend outer bindings).2.frame k) :
    entry ∈ bindings ∧ k = store.frames.size ∨ entry ∈ store.frame k := by
  by_cases hk : k = store.frames.size
  · subst hk
    rw [frame_extend_self] at h
    exact .inl ⟨h, rfl⟩
  · rw [frame_extend_of_ne hk] at h
    exact .inr h

/-! Properties of all values that are bound. -/

def All (p : ℕ → Value → Prop) (store : Store) : Prop :=
  ∀ k, ∀ entry ∈ store.frame k, p k entry.2

variable {p : ℕ → Value → Prop}

lemma All.of_frames_eq (h : store.All p) (heq : store'.frames = store.frames) : store'.All p := by
  intro k entry he
  rw [frame, heq] at he
  exact h k entry he

lemma All.bind (h : store.All p) (hv : p index v) : (store.bind index name v).All p := by
  intro k entry he
  rcases mem_frame_bind he with ⟨rfl, rfl⟩ | he
  · exact hv
  · exact h k entry he

lemma All.assign? (h : store.All p) (hv : ∀ k ∈ scope.path, p k v)
    (hstore : store.assign? scope name v = some store') : store'.All p := by
  obtain ⟨index, hindex, rfl⟩ := assign?_eq_some.1 hstore
  exact h.bind (hv index (holder?_eq_some hindex).1)

lemma All.extend (h : store.All p) (outer : Option Scope)
    (hnew : ∀ entry ∈ bindings, p store.frames.size entry.2) :
    (store.extend outer bindings).2.All p := by
  intro k entry he
  rcases mem_frame_extend outer he with ⟨hentry, rfl⟩ | hold
  · exact hnew entry hentry
  · exact h k entry hold

end Store

end Lisplet

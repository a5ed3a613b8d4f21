import Lisplet.Value.Basic
import Mathlib.Data.List.Basic

/-! The values inside a value: the items of lists and the bodies of closures, at any depth. -/

namespace Lisplet.Value

variable {u v w : Value} {p q : Value → Prop}

def children : Value → List Value
  | list _ items => items
  | function _ _ body _ => body
  | _ => []

lemma sizeOf_lt_of_mem_children (h : w ∈ v.children) : sizeOf w < sizeOf v := by
  cases v with
  | list mark items =>
    have hmem : w ∈ items := h
    have hlt := List.sizeOf_lt_of_mem hmem
    rw [list.sizeOf_spec]
    omega
  | function mark params body c =>
    have hmem : w ∈ body := h
    have hlt := List.sizeOf_lt_of_mem hmem
    rw [function.sizeOf_spec]
    omega
  | _ => cases h

theorem children_induction (h : ∀ v : Value, (∀ w ∈ v.children, p w) → p v) (v : Value) : p v :=
  h v fun w _ => children_induction h w
termination_by sizeOf v
decreasing_by exact sizeOf_lt_of_mem_children ‹_›

inductive Part : Value → Value → Prop
  | self (v : Value) : Part v v
  | child {u v w : Value} : w ∈ v.children → Part u w → Part u v

lemma Part.trans (huv : Part u v) (hvw : Part v w) : Part u w := by
  induction hvw with
  | self => exact huv
  | child hmem _ ih => exact .child hmem ih

def Every (p : Value → Prop) (v : Value) : Prop :=
  ∀ u, Part u v → p u

lemma every_iff : Every p v ↔ p v ∧ ∀ w ∈ v.children, Every p w := by
  constructor
  · exact fun h => ⟨h v (.self v), fun w hw u hu => h u (.child hw hu)⟩
  · rintro ⟨hv, hchildren⟩ u hu
    cases hu with
    | self => exact hv
    | child hw hu => exact hchildren _ hw u hu

lemma every_leaf (h : v.children = []) : Every p v ↔ p v := by
  rw [every_iff, h]
  exact and_iff_left fun _ hw => absurd hw List.not_mem_nil

@[simp] lemma every_list {mark : Option ℕ} {items : List Value} :
    Every p (list mark items) ↔ p (list mark items) ∧ ∀ w ∈ items, Every p w :=
  every_iff

@[simp] lemma every_function {mark : ℕ} {params : List String} {body : List Value} {c : Scope} :
    Every p (function mark params body c) ↔
      p (function mark params body c) ∧ ∀ w ∈ body, Every p w :=
  every_iff

lemma Every.here (h : Every p v) : p v :=
  h v (.self v)

lemma Every.child (h : Every p v) (hw : w ∈ v.children) : Every p w :=
  (every_iff.1 h).2 w hw

lemma Every.part (h : Every p v) (hu : Part u v) : Every p u :=
  fun t ht => h t (ht.trans hu)

lemma Every.imp (h : Every p v) (hpq : ∀ u, p u → q u) : Every q v :=
  fun u hu => hpq u (h u hu)

lemma Every.and (hp : Every p v) (hq : Every q v) : Every (fun u => p u ∧ q u) v :=
  fun u hu => ⟨hp u hu, hq u hu⟩

def Captures (v : Value) (c : Scope) : Prop :=
  ∃ mark params body, Part (function mark params body c) v

def scopes (owns : String → List Scope) : Value → List Scope
  | function _ _ _ c => [c]
  | operation (.host name) => owns name
  | _ => []

lemma forall_captures {owns : String → List Scope} {q : Scope → Prop}
    (h : v.Every fun u => ∀ c ∈ u.scopes owns, q c) : ∀ c, v.Captures c → q c := by
  rintro c ⟨mark, params, body, hf⟩
  exact h _ hf c (List.mem_singleton_self c)

lemma every_scopes {q : Scope → Prop} (h : ∀ c, v.Captures c → q c) :
    v.Every fun u => ∀ c ∈ u.scopes (fun _ => []), q c := by
  intro u hu c hc
  cases u with
  | function mark params body d =>
    obtain rfl := List.mem_singleton.1 hc
    exact h c ⟨mark, params, body, hu⟩
  | operation op => cases op <;> exact absurd hc List.not_mem_nil
  | _ => exact absurd hc List.not_mem_nil

end Lisplet.Value

import Lisplet.Library.Functions
import Lisplet.Proofs.Decimal.Bits
import Lisplet.Proofs.Value.Parts

/-! Equality of values. It is symmetric and transitive, and reflexive on the values that hold
nothing unequal to itself. -/

namespace Lisplet.Value

variable {a b c u v w : Value} {as bs cs : List Value}

lemma equalItems_iff_forall₂ :
    equalItems as bs = true ↔ List.Forall₂ (fun a b => equal a b = true) as bs := by
  induction as generalizing bs with
  | nil => cases bs with
    | nil => exact iff_of_true rfl .nil
    | cons b bs => exact iff_of_false nofun nofun
  | cons a as ih => cases bs with
    | nil => exact iff_of_false nofun nofun
    | cons b bs => rw [equalItems, Bool.and_eq_true, ih, List.forall₂_cons]

lemma exists_mem_of_equalItems (h : equalItems as bs = true) :
    ∀ b ∈ bs, ∃ a ∈ as, equal a b = true := by
  induction equalItems_iff_forall₂.1 h with
  | nil => exact fun _ hb => absurd hb List.not_mem_nil
  | @cons a b as bs he hs ih =>
    rintro u (_ | ⟨_, hu⟩)
    · exact ⟨a, List.mem_cons_self, he⟩
    · obtain ⟨t, ht, htu⟩ := ih (equalItems_iff_forall₂.2 hs) u hu
      exact ⟨t, List.mem_cons_of_mem _ ht, htu⟩

inductive Alike : Value → Value → Prop
  | number (n : Int64) : Alike (number n) (number n)
  | real {x y : Float} : (x == y) = true → Alike (real x) (real y)
  | string (s : String) : Alike (string s) (string s)
  | boolean (b : Bool) : Alike (boolean b) (boolean b)
  | symbol (name : String) : Alike (symbol name) (symbol name)
  | list {mark other : Option ℕ} {as bs : List Value} : equalItems as bs = true →
      Alike (list mark as) (list other bs)
  | function {mark : ℕ} {params names : List String} {body forms : List Value} {c d : Scope} :
      Alike (function mark params body c) (function mark names forms d)
  | operation (op : Operation) : Alike (operation op) (operation op)

lemma equal_iff : equal a b = true ↔ Alike a b := by
  constructor
  · intro h
    cases a with
    | number n => cases b with
      | number m => exact eq_of_beq h ▸ .number n
      | _ => cases h
    | real x => cases b with
      | real y => exact .real h
      | _ => cases h
    | string s => cases b with
      | string t => exact eq_of_beq h ▸ .string s
      | _ => cases h
    | boolean p => cases b with
      | boolean q => exact eq_of_beq h ▸ .boolean p
      | _ => cases h
    | symbol name => cases b with
      | symbol other => exact eq_of_beq h ▸ .symbol name
      | _ => cases h
    | list mark as => cases b with
      | list other bs => exact .list h
      | _ => cases h
    | function mark params body c => cases b with
      | function other names forms d => exact eq_of_beq h ▸ .function
      | _ => cases h
    | operation op => cases b with
      | operation other => exact eq_of_beq h ▸ .operation op
      | _ => cases h
    | unspecified => cases h
  · intro h
    cases h with
    | real h => exact h
    | list h => exact h
    | _ => exact beq_self_eq_true _

lemma equalItems_symm (h : ∀ a ∈ as, ∀ b, equal a b = true → equal b a = true)
    (hab : equalItems as bs = true) : equalItems bs as = true := by
  rw [equalItems_iff_forall₂] at hab ⊢
  exact (((List.forall₂_and_left _ _).2 ⟨h, hab⟩).imp fun a b hab => hab.1 b hab.2).flip

lemma equal_symm (h : equal a b = true) : equal b a = true := by
  induction a using children_induction generalizing b with
  | h a ih =>
    rw [equal_iff] at h ⊢
    cases h with
    | number n => exact .number n
    | real h => exact .real (BEq.symm h)
    | string s => exact .string s
    | boolean b => exact .boolean b
    | symbol name => exact .symbol name
    | list h => exact .list (equalItems_symm (fun a ha _ => ih a ha) h)
    | function => exact .function
    | operation op => exact .operation op

lemma equalItems_trans
    (h : ∀ a ∈ as, ∀ b c, equal a b = true → equal b c = true → equal a c = true)
    (hab : equalItems as bs = true) (hbc : equalItems bs cs = true) : equalItems as cs = true := by
  rw [equalItems_iff_forall₂] at hab hbc ⊢
  induction hab generalizing cs with
  | nil => exact hbc
  | @cons a b as bs hfirst _ ih => cases hbc with
    | cons hsecond hrest =>
      obtain ⟨ha, has⟩ := List.forall_mem_cons.1 h
      exact .cons (ha _ _ hfirst hsecond) (ih has hrest)

lemma equal_trans (hab : equal a b = true) (hbc : equal b c = true) : equal a c = true := by
  induction a using children_induction generalizing b c with
  | h a ih =>
    rw [equal_iff] at hab hbc ⊢
    cases hab with
    | real hxy => cases hbc with
      | real hyz => exact .real (PartialEquivBEq.trans hxy hyz)
    | list hab => cases hbc with
      | list hbc => exact .list (equalItems_trans (fun a ha _ _ => ih a ha) hab hbc)
    | function => cases hbc with
      | function => exact .function
    | _ => exact hbc

instance : PartialEquivBEq Value where
  symm := equal_symm
  trans := equal_trans

inductive Held : Value → Value → Prop
  | self (v : Value) : Held v v
  | item {mark : Option ℕ} {items : List Value} {u v : Value} : v ∈ items → Held u v →
      Held u (list mark items)

def Definite (v : Value) : Prop :=
  v ≠ unspecified ∧ ∀ x, v = real x → x.isNaN = false

lemma held_list_iff {mark : Option ℕ} :
    Held u (list mark as) ↔ u = list mark as ∨ ∃ v ∈ as, Held u v := by
  constructor
  · rintro (_ | ⟨hv, hu⟩)
    · exact .inl rfl
    · exact .inr ⟨_, hv, hu⟩
  · rintro (rfl | ⟨v, hv, hu⟩)
    · exact .self _
    · exact .item hv hu

lemma forall_held_iff {p : Value → Prop} (hv : v.items? = none) : (∀ u, Held u v → p u) ↔ p v := by
  constructor
  · exact fun h => h v (.self v)
  · intro h u hu
    cases hu with
    | self => exact h
    | item => cases hv

lemma equal_real_self_iff {x : Float} : equal (real x) (real x) = true ↔ (real x).Definite := by
  have hdefinite : (real x).Definite ↔ x.isNaN = false := by simp [Definite]
  exact Decimal.beq_self_iff.trans hdefinite.symm

lemma equalItems_self_iff : equalItems as as = true ↔ ∀ v ∈ as, equal v v = true :=
  equalItems_iff_forall₂.trans List.forall₂_same

lemma equal_self_iff : equal a a = true ↔ ∀ u, Held u a → u.Definite := by
  induction a using children_induction with
  | h a ih =>
    cases a with
    | list mark as =>
      have hitems : equalItems as as = true ↔ ∀ v ∈ as, ∀ u, Held u v → u.Definite :=
        equalItems_self_iff.trans (forall₂_congr ih)
      rw [equal, hitems]
      constructor
      · intro h u hu
        rcases held_list_iff.1 hu with rfl | ⟨v, hv, hu⟩
        · exact ⟨nofun, nofun⟩
        · exact h v hv u hu
      · exact fun h v hv u hu => h u (.item hv hu)
    | real x => exact equal_real_self_iff.trans (forall_held_iff rfl).symm
    | unspecified => exact iff_of_false nofun fun h => (h _ (.self _)).1 rfl
    | _ => exact iff_of_true (beq_self_eq_true _) ((forall_held_iff rfl).2 ⟨nofun, nofun⟩)

def SameObject (a b : Value) : Prop :=
  ∃ mark as bs, a = list (some mark) as ∧ b = list (some mark) bs

lemma SameObject.symm : SameObject a b → SameObject b a
  | ⟨mark, as, bs, ha, hb⟩ => ⟨mark, bs, as, hb, ha⟩

lemma sameObject_list_iff {m n : ℕ} :
    SameObject (list (some m) as) (list (some n) bs) ↔ m = n := by
  constructor
  · rintro ⟨mark, _, _, ⟨⟩, ⟨⟩⟩
    rfl
  · rintro rfl
    exact ⟨m, as, bs, rfl, rfl⟩

lemma same_iff : same a b = true ↔ equal a b = true ∨ SameObject a b := by
  by_cases h : ∃ m n as bs, a = list (some m) as ∧ b = list (some n) bs
  · obtain ⟨m, n, as, bs, rfl, rfl⟩ := h
    rw [sameObject_list_iff, or_comm, same, Bool.or_eq_true, beq_iff_eq, equal]
  · have hsame : same a b = equal a b := by
      rw [same]
      · rfl
      · exact fun m as n bs ha hb => h ⟨m, n, as, bs, ha, hb⟩
    rw [hsame]
    exact (or_iff_left fun ⟨mark, as, bs, hab⟩ => h ⟨mark, mark, as, bs, hab⟩).symm

/-- Equality is symmetric and transitive, and the values equal to themselves are those that hold
neither an unspecified value nor a real that is no number. Equal values are the same, and besides
them only two that are one list. -/
theorem equality (a b c : Value) :
    (a == b) = (b == a) ∧ (a == b → b == c → a == c) ∧
    (a == a ↔ ∀ u, Held u a → u ≠ unspecified ∧ ∀ x, u = real x → x.isNaN = false) ∧
    (∀ w, LibraryFunction.equal.call [a, b] w = some (.ok (.boolean (a == b)), w)) ∧
    (a == b → same a b) ∧ same a b = same b a ∧
    (same a b ↔ a == b ∨ SameObject a b) := by
  refine ⟨BEq.comm, PartialEquivBEq.trans, equal_self_iff, fun w => rfl,
    fun h => same_iff.2 (.inl h), ?_, same_iff⟩
  rw [Bool.eq_iff_iff, same_iff, same_iff]
  exact or_congr ⟨equal_symm, equal_symm⟩ ⟨.symm, .symm⟩

theorem equality_pairs :
    (list (some 0) [number 1, string "a"] == list (some 1) [number 1, string "a"]) = true ∧
    same (list none [number 1, string "a"]) (list (some 0) [number 1, string "a"]) = true ∧
    (list (some 2) [number 1, unspecified] == list (some 2) [number 1, unspecified]) = false ∧
    same (list (some 2) [number 1, unspecified]) (list (some 2) [number 1, unspecified]) = true := by
  have hmarked : SameObject (list (some 2) [number 1, unspecified])
      (list (some 2) [number 1, unspecified]) := ⟨2, _, _, rfl, rfl⟩
  refine ⟨?_, ?_, ?_, ?_⟩
  · exact (equality _ (list none [number 1, string "a"]) _).2.1 rfl rfl
  · exact (equality _ _ nil).2.2.2.2.1 rfl
  · refine Bool.eq_false_iff.2 fun h => ?_
    exact (((equality _ nil nil).2.2.1.1 h) _ (.item (.tail _ (.head _)) (.self _))).1 rfl
  · exact (equality _ _ nil).2.2.2.2.2.2.2 (.inr hmarked)

end Lisplet.Value

import Lisplet.Proofs.Decimal.Order
import Lisplet.Proofs.Library.Results

/-! Chains of numbers. What holds between neighbours holds between any two of a chain, but for
integers with a real between them: they can be different and yet as reals the same. -/

namespace Lisplet

open Decimal

namespace Num

def place (x : Num) : ℤ :=
  Decimal.place x.toReal

def Holds (wanted : Ordering → Bool) (a b : ℤ) : Prop :=
  wanted (compare a b) = true

def Transitive (wanted : Ordering → Bool) : Prop :=
  ∀ a b c, Holds wanted a b → Holds wanted b c → Holds wanted a c

variable {wanted : Ordering → Bool} {x y z : Num} {xs : List Num} {m n k : Int64} {a b c : ℤ}

lemma isFinite_int (n : Int64) : (int n).toReal.isFinite = true := by
  by_cases hn : n.toInt = 0
  · rw [toReal, hn]
    rfl
  · exact (normal_ofInt hn (natAbs_toInt_lt n)).isFinite

lemma place_int_mono (h : m.toInt ≤ n.toInt) : (int m).place ≤ (int n).place :=
  place_ofInt_mono h (natAbs_toInt_lt m) (natAbs_toInt_lt n)

lemma compare_place_int (m n : Int64) :
    compare (int m).place (int n).place = compare m.toInt n.toInt ∨
      (int m).place = (int n).place := by
  rcases lt_trichotomy m.toInt n.toInt with h | h | h
  · refine (place_int_mono h.le).lt_or_eq.imp_left fun hlt => ?_
    rw [Int.compare_eq_lt.2 h, Int.compare_eq_lt.2 hlt]
  · exact .inr (congrArg (fun k => (int k).place) (Int64.toInt_inj.1 h))
  · refine (place_int_mono h.le).lt_or_eq.imp (fun hlt => ?_) Eq.symm
    rw [Int.compare_eq_gt.2 h, Int.compare_eq_gt.2 hlt]

lemma Holds.place_int (h : Holds wanted m.toInt n.toInt) :
    Holds wanted (int m).place (int n).place ∨ (int m).place = (int n).place := by
  refine (compare_place_int m n).imp_left fun hsame => ?_
  rw [Holds, hsame]
  exact h

lemma Holds.of_place_int (h : Holds wanted (int m).place (int n).place) :
    Holds wanted m.toInt n.toInt ∨
      wanted .eq = true ∧ ¬ Holds wanted m.toInt n.toInt ∧ (int m).place = (int n).place := by
  by_cases hints : Holds wanted m.toInt n.toInt
  · exact .inl hints
  · obtain hsame | hplace := compare_place_int m n
    · rw [Holds, hsame] at h
      exact absurd h hints
    · rw [Holds, hplace, Int.compare_eq_eq.2 rfl] at h
      exact .inr ⟨h, hints, hplace⟩

lemma compare?_eq_place (hx : x.toReal.isFinite = true) (hy : y.toReal.isFinite = true)
    (hreal : ∃ r, real r ∈ [x, y]) : x.compare? y = some (compare x.place y.place) := by
  have hplaces : x.compare? y = if x.toReal < y.toReal then some .lt
      else if x.toReal == y.toReal then some .eq
      else if y.toReal < x.toReal then some .gt else none := by
    cases x <;> cases y <;> first | rfl | simp at hreal
  have hlt : x.toReal < y.toReal ↔ x.place < y.place := lt_iff_place_lt hx hy
  have hgt : y.toReal < x.toReal ↔ y.place < x.place := lt_iff_place_lt hy hx
  have heq : (x.toReal == y.toReal) = true ↔ x.place = y.place := beq_iff_place_eq hx hy
  simp only [hplaces, hlt, hgt, heq]
  rcases lt_trichotomy x.place y.place with h | h | h
  · rw [if_pos h, Int.compare_eq_lt.2 h]
  · rw [if_neg h.not_lt, if_pos h, Int.compare_eq_eq.2 h]
  · rw [if_neg h.not_gt, if_neg h.ne', if_pos h, Int.compare_eq_gt.2 h]

/-- What a chain from one number to another comes to: between integers alone their own comparison,
and otherwise the one of their places. -/
def Linked (wanted : Ordering → Bool) (x : Num) (between : List Num) (y : Num) : Prop :=
  (∃ m n, x = int m ∧ y = int n ∧ Holds wanted m.toInt n.toInt ∧ ∀ r, real r ∉ between) ∨
    (∃ r, real r ∈ x :: (between ++ [y])) ∧ Holds wanted x.place y.place

lemma linked_nil_iff (hx : x.toReal.isFinite = true) (hy : y.toReal.isFinite = true) :
    Linked wanted x [] y ↔ (x.compare? y).any wanted = true := by
  by_cases hreal : ∃ r, real r ∈ [x, y]
  · rw [compare?_eq_place hx hy hreal]
    constructor
    · rintro (⟨m, n, rfl, rfl, _⟩ | ⟨_, h⟩)
      · simp at hreal
      · exact h
    · exact fun h => .inr ⟨hreal, h⟩
  · cases x with
    | real r => simp at hreal
    | int m => cases y with
      | real r => simp at hreal
      | int n =>
        constructor
        · rintro (⟨m, n, ⟨⟩, ⟨⟩, h, _⟩ | ⟨h, _⟩)
          · exact h
          · exact absurd h hreal
        · exact fun h => .inl ⟨m, n, rfl, rfl, h, by simp⟩

lemma Linked.cons (htrans : Transitive wanted) (h : Linked wanted x [] z)
    (h' : Linked wanted z xs y) : Linked wanted x (z :: xs) y := by
  obtain ⟨m, k, rfl, rfl, h, _⟩ | ⟨⟨r, hr⟩, h⟩ := h
  · obtain ⟨_, n, ⟨⟩, rfl, h', hints⟩ | ⟨⟨r, hr⟩, h'⟩ := h'
    · exact .inl ⟨m, n, rfl, rfl, htrans _ _ _ h h', by simpa using hints⟩
    · refine .inr ⟨⟨r, List.mem_cons_of_mem _ hr⟩, ?_⟩
      -- from one integer to the next the places can stand still, which the real makes up for
      obtain h | hplace := h.place_int
      · exact htrans _ _ _ h h'
      · rwa [hplace]
  · have hmem : real r ∈ x :: (z :: xs ++ [y]) := by
      obtain rfl | hz := List.mem_cons.1 hr
      · exact List.mem_cons_self
      · obtain rfl := List.mem_singleton.1 hz
        simp
    refine .inr ⟨⟨r, hmem⟩, ?_⟩
    obtain ⟨k, n, rfl, rfl, h', _⟩ | ⟨_, h'⟩ := h'
    · obtain h' | hplace := h'.place_int
      · exact htrans _ _ _ h h'
      · rwa [← hplace]
    · exact htrans _ _ _ h h'

lemma linked_of_ordered (htrans : Transitive wanted) {between after : List Num}
    (hfinite : ∀ a ∈ x :: (between ++ y :: after), a.toReal.isFinite = true)
    (h : ordered wanted x (between ++ y :: after) = true) : Linked wanted x between y := by
  induction between generalizing x with
  | nil =>
    rw [List.nil_append, ordered, Bool.and_eq_true] at h
    exact (linked_nil_iff (hfinite x (by simp)) (hfinite y (by simp))).2 h.1
  | cons b between ih =>
    rw [List.cons_append, ordered, Bool.and_eq_true] at h
    have hfirst := (linked_nil_iff (hfinite x (by simp)) (hfinite b (by simp))).2 h.1
    exact hfirst.cons htrans (ih (fun a ha => hfinite a (List.mem_cons_of_mem _ ha)) h.2)

lemma Linked.pair (h : Linked wanted x xs y) : Linked wanted x [] y ∨
    wanted .eq = true ∧ ∃ m n, x = int m ∧ y = int n ∧ ¬ Holds wanted m.toInt n.toInt ∧
      (int m).place = (int n).place ∧ ∃ r, real r ∈ xs := by
  obtain ⟨m, n, hm, hn, h, _⟩ | ⟨⟨r, hr⟩, h⟩ := h
  · exact .inl (.inl ⟨m, n, hm, hn, h, by simp⟩)
  · by_cases hpair : ∃ r, real r ∈ [x, y]
    · exact .inl (.inr ⟨hpair, h⟩)
    · cases x with
      | real r => simp at hpair
      | int m => cases y with
        | real r => simp at hpair
        | int n =>
          have hmem : real r ∈ xs := by simpa using hr
          obtain h | ⟨hwanted, hints, hplace⟩ := h.of_place_int
          · exact .inl (.inl ⟨m, n, rfl, rfl, h, by simp⟩)
          · exact .inr ⟨hwanted, m, n, rfl, rfl, hints, hplace, r, hmem⟩

lemma ordered_of_append {before : List Num} (h : ordered wanted z (before ++ x :: xs) = true) :
    ordered wanted x xs = true := by
  induction before generalizing z with
  | nil =>
    rw [List.nil_append, ordered, Bool.and_eq_true] at h
    exact h.2
  | cons b before ih =>
    rw [List.cons_append, ordered, Bool.and_eq_true] at h
    exact ih h.2

end Num

namespace LibraryFunction

open Lisplet.Num

variable {wanted : Ordering → Bool} {x y : Num} {xs : List Num} {w w' : World}

lemma comparing_cons (x : Num) (xs : List Num) : comparing wanted ((x :: xs).map toValue) =
    pure (.boolean (ordered wanted x xs)) := by
  rw [comparing, List.map_cons, run_someValues, Arithmetic.comparison, ofValues_toValue,
    ofValue_toValue]
  rfl

lemma exists_of_comparing {args : List Value} {b : Bool}
    (h : comparing wanted args w = some (.ok (.boolean b), w')) :
    ∃ x xs, args = (x :: xs).map toValue ∧ ordered wanted x xs = b := by
  cases args with
  | nil => cases h
  | cons v args =>
    rw [comparing, run_someValues] at h
    obtain ⟨_, hb, ⟨⟩⟩ := map_eq_ok (Prod.ext_iff.1 (Option.some.inj h)).1
    obtain ⟨x, hx, hb⟩ := bind_eq_ok hb
    obtain ⟨xs, hxs, hb⟩ := map_eq_ok hb
    refine ⟨x, xs, ?_, hb⟩
    rw [List.map_cons, toValue_of_ofValue hx, map_toValue_of_ofValues hxs]

inductive Refuses : LibraryFunction → Int64 → Int64 → Prop
  | numEqual {m n : Int64} : m ≠ n → Refuses numEqual m n
  | atMost {m n : Int64} : n < m → Refuses atMost m n
  | atLeast {m n : Int64} : m < n → Refuses atLeast m n

lemma comparison_spec {f : LibraryFunction} (hf : f ∈ [numEqual, less, greater, atMost, atLeast]) :
    ∃ wanted, f.call = comparing wanted ∧ Transitive wanted ∧
      (wanted .eq = true → ∀ m n : Int64, ¬ Holds wanted m.toInt n.toInt → Refuses f m n) := by
  simp only [List.mem_cons, List.not_mem_nil, or_false] at hf
  obtain rfl | rfl | rfl | rfl | rfl := hf
  · refine ⟨_, rfl, fun a b c => ?_, fun _ m n => ?_⟩
    · simp only [Holds, beq_iff_eq, Int.compare_eq_eq]
      exact Eq.trans
    · simp only [Holds, beq_iff_eq, Int.compare_eq_eq]
      exact fun h => .numEqual fun hmn => h (congrArg _ hmn)
  · refine ⟨_, rfl, fun a b c => ?_, nofun⟩
    simp only [Holds, beq_iff_eq, Int.compare_eq_lt]
    exact Int.lt_trans
  · refine ⟨_, rfl, fun a b c => ?_, nofun⟩
    simp only [Holds, beq_iff_eq, Int.compare_eq_gt]
    exact fun h h' => Int.lt_trans h' h
  · refine ⟨_, rfl, fun a b c => ?_, fun _ m n => ?_⟩
    · simp only [Holds, bne_iff_ne, Int.compare_ne_gt]
      exact Int.le_trans
    · simp only [Holds, bne_iff_ne, Int.compare_ne_gt, Int.not_le]
      exact fun h => .atMost (Int64.lt_iff_toInt_lt.2 h)
  · refine ⟨_, rfl, fun a b c => ?_, fun _ m n => ?_⟩
    · simp only [Holds, bne_iff_ne, Int.compare_ne_lt]
      exact fun h h' => Int.le_trans h' h
    · simp only [Holds, bne_iff_ne, Int.compare_ne_lt, Int.not_le]
      exact fun h => .atLeast (Int64.lt_iff_toInt_lt.2 h)

/-- What holds along a chain of numbers holds between any two of it, unless they are integers that
the comparison refuses but that are the same as reals, with a real between them. -/
theorem call_pair {f : LibraryFunction} (hf : f ∈ [numEqual, less, greater, atMost, atLeast])
    {before between after : List Value} {x y : Value} {w w' : World}
    (hfinite : ∀ r, .real r ∈ before ++ x :: (between ++ y :: after) → r.isFinite = true)
    (h : f.call (before ++ x :: (between ++ y :: after)) w = some (.ok (.boolean true), w')) :
    f.call [x, y] w = some (.ok (.boolean true), w) ∨
      ∃ m n, x = .number m ∧ y = .number n ∧ Refuses f m n ∧
        (Float.ofInt m.toInt == Float.ofInt n.toInt) = true ∧ ∃ r, .real r ∈ between := by
  obtain ⟨wanted, hcall, htrans, hrefuses⟩ := comparison_spec hf
  rw [hcall] at h ⊢
  obtain ⟨z, zs, hargs, hordered⟩ := exists_of_comparing h
  obtain ⟨bs, _, hzs, rfl, hx⟩ := List.map_eq_append_iff.1 hargs.symm
  obtain ⟨a, _, rfl, rfl, hbetween⟩ := List.map_eq_cons_iff.1 hx
  obtain ⟨ms, _, rfl, rfl, hy⟩ := List.map_eq_append_iff.1 hbetween
  obtain ⟨b, cs, rfl, rfl, rfl⟩ := List.map_eq_cons_iff.1 hy
  have hfinite : ∀ c ∈ a :: (ms ++ b :: cs), c.toReal.isFinite = true := by
    intro c hc
    cases c with
    | int n => exact isFinite_int n
    | real r =>
      have hmem := List.mem_map_of_mem (f := toValue) hc
      rw [List.map_cons, List.map_append, List.map_cons] at hmem
      exact hfinite r (List.mem_append_right _ hmem)
  have hordered : ordered wanted a (ms ++ b :: cs) = true := by
    cases bs with
    | nil =>
      cases hzs
      exact hordered
    | cons _ bs =>
      cases hzs
      exact ordered_of_append hordered
  obtain hpair | ⟨hwanted, m, n, rfl, rfl, hints, hplace, r, hr⟩ :=
    (linked_of_ordered htrans hfinite hordered).pair
  · left
    have hcompare := (linked_nil_iff (hfinite a (by simp)) (hfinite b (by simp))).1 hpair
    have hordered : ordered wanted a [b] = true := by
      rw [ordered, hcompare]
      rfl
    have hpairs : comparing wanted [a.toValue, b.toValue] =
        pure (.boolean (ordered wanted a [b])) := comparing_cons a [b]
    rw [hpairs, hordered]
    rfl
  · exact .inr ⟨m, n, rfl, rfl, hrefuses hwanted m n hints,
      (beq_iff_place_eq (isFinite_int m) (isFinite_int n)).2 hplace,
      r, List.mem_map_of_mem (f := toValue) hr⟩

theorem call_pair_close :
    let before := [Value.real 0.5]
    let between := [Value.number 9007199254740993, Value.real 9007199254740994.0]
    let args := before ++ .number 9007199254740992 :: (between ++ .number 9007199254740995 :: [])
    (∀ r, .real r ∈ args → r.isFinite = true) ∧
      less.call args .empty = some (.ok (.boolean true), .empty) ∧
      less.call [.number 9007199254740992, .number 9007199254740995] .empty =
        some (.ok (.boolean true), .empty) := by
  intro before between args
  have hfinite (r : Float) (hr : .real r ∈ args) : r.isFinite = true := by
    simp [args, before, between] at hr
    obtain rfl | rfl := hr <;> rfl
  have hcall : less.call args .empty = some (.ok (.boolean true), .empty) := by rfl
  refine ⟨hfinite, hcall, ?_⟩
  obtain h | ⟨m, n, _, _, hless, _⟩ := call_pair (by decide) hfinite hcall
  · exact h
  · cases hless

theorem pair_across_real :
    numEqual.call [.number 9007199254740993, .real 9007199254740992.0, .number 9007199254740992]
        .empty = some (.ok (.boolean true), .empty) ∧
      (9007199254740992.0 : Float).isFinite = true ∧
      numEqual.call [.number 9007199254740993, .number 9007199254740992] .empty =
        some (.ok (.boolean false), .empty) := by
  refine ⟨?_, ?_, ?_⟩ <;> rfl

end LibraryFunction
end Lisplet

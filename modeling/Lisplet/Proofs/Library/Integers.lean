import Lisplet.Proofs.Library.Results

/-! Integers in arithmetic. They are combined exactly from left to right, and the first intermediate
result out of range ends the calculation. With the first real it goes on in reals to a real. -/

namespace Lisplet

def Integer.range : Set ℤ :=
  Set.Ico (-2 ^ 63) (2 ^ 63)

lemma Integer.mem_range_iff {n : ℤ} :
    n ∈ range ↔ -0x8000000000000000 ≤ n ∧ n < 0x8000000000000000 := by
  rw [range, Set.mem_Ico]
  norm_num

lemma Integer.fit?_eq_none_iff {n : ℤ} : fit? n = none ↔ n ∉ range := by
  rw [mem_range_iff, fit?, ite_eq_right_iff]
  exact imp_congr_right fun _ => iff_of_false nofun id

lemma Integer.toInt_mem_range (n : Int64) : n.toInt ∈ range :=
  mem_range_iff.2 ⟨Int64.le_toInt n, Int64.toInt_lt n⟩

namespace Num

variable {what : Calculation} {onInts : ℤ → ℤ → ℤ} {onReals : Float → Float → Float}
variable {a b x : Num} {xs : List Num} {n : Int64} {ns : List Int64}

lemma map_toValue_int (ns : List Int64) : (ns.map int).map toValue = ns.map .number := by
  rw [List.map_map]
  rfl

lemma chain_of_fits
    (h : ∀ m ∈ (ns.map Int64.toInt).scanl onInts n.toInt, m ∈ Integer.range) (xs : List Num) :
    ∃ r : Int64, r.toInt = (ns.map Int64.toInt).foldl onInts n.toInt ∧
      chain (combine what onInts onReals) (int n) (ns.map int ++ xs) =
        chain (combine what onInts onReals) (int r) xs := by
  induction ns generalizing n with
  | nil => exact ⟨n, rfl, rfl⟩
  | cons k ns ih =>
    rw [List.map_cons, List.scanl_cons, List.forall_mem_cons] at h
    cases hfit : Integer.fit? (onInts n.toInt k.toInt) with
    | none =>
      refine absurd (h.2 _ ?_) (Integer.fit?_eq_none_iff.1 hfit)
      cases ns <;> simp
    | some m =>
      rw [← Integer.fit?_eq_some_iff.1 hfit] at h
      obtain ⟨r, hr, hchain⟩ := ih h.2
      refine ⟨r, ?_, ?_⟩
      · rw [hr, List.map_cons, List.foldl_cons, Integer.fit?_eq_some_iff.1 hfit]
      · rw [List.map_cons, List.cons_append, chain, combine, exactly, hfit]
        exact hchain

lemma chain_of_overflow
    (h : ∃ m ∈ (ns.map Int64.toInt).scanl onInts n.toInt, m ∉ Integer.range) (xs : List Num) :
    chain (combine what onInts onReals) (int n) (ns.map int ++ xs) =
      .error (.failure (.integerOverflow what) none) := by
  induction ns generalizing n with
  | nil =>
    obtain ⟨m, hm, hover⟩ := h
    obtain rfl := List.mem_singleton.1 hm
    exact absurd (Integer.toInt_mem_range n) hover
  | cons k ns ih =>
    rw [List.map_cons, List.cons_append, chain, combine, exactly]
    cases hfit : Integer.fit? (onInts n.toInt k.toInt) with
    | none => rfl
    | some m =>
      refine ih ?_
      rw [Integer.fit?_eq_some_iff.1 hfit]
      obtain ⟨l, hl, hover⟩ := h
      rw [List.map_cons, List.scanl_cons, List.mem_cons] at hl
      obtain rfl | hl := hl
      · exact absurd (Integer.toInt_mem_range n) hover
      · exact ⟨l, hl, hover⟩

lemma finitely_real {y : Float} (h : finitely what y = .ok x) : ∃ z, x = real z := by
  rw [finitely] at h
  split at h
  · cases h
    exact ⟨y, rfl⟩
  · cases h

lemma combine_real (h : combine what onInts onReals a b = .ok x)
    (hreal : ∃ y, real y ∈ [a, b]) : ∃ z, x = real z := by
  cases a with
  | real _ => exact finitely_real h
  | int _ => cases b with
    | real _ => exact finitely_real h
    | int _ => simp at hreal

lemma chain_real (h : chain (combine what onInts onReals) a xs = .ok x)
    (hreal : ∃ y, real y ∈ a :: xs) : ∃ z, x = real z := by
  induction xs generalizing a with
  | nil =>
    cases h
    obtain ⟨y, hy⟩ := hreal
    exact ⟨y, (List.mem_singleton.1 hy).symm⟩
  | cons b xs ih =>
    obtain ⟨c, hc, h⟩ := bind_eq_ok h
    refine ih h ?_
    obtain ⟨y, hy⟩ := hreal
    by_cases hxs : real y ∈ xs
    · exact ⟨y, List.mem_cons_of_mem _ hxs⟩
    · obtain ⟨z, rfl⟩ := combine_real hc ⟨y, by simpa [hxs] using hy⟩
      exact ⟨z, List.mem_cons_self⟩

lemma real_mem_of_ofValues {y : Float} {args : List Value} (h : ofValues args = .ok xs)
    (hy : Value.real y ∈ args) : real y ∈ xs := by
  induction args generalizing xs with
  | nil => cases hy
  | cons v args ih =>
    obtain ⟨x, hx, h⟩ := bind_eq_ok h
    obtain ⟨xs, hxs, rfl⟩ := map_eq_ok h
    obtain rfl | hy := List.mem_cons.1 hy
    · cases hx
      exact List.mem_cons_self
    · exact List.mem_cons_of_mem _ (ih hxs hy)

end Num

namespace Arithmetic

variable {x : Num} {y : Float} {first : Value} {rest : List Value}

lemma sum_real (h : sum rest = .ok x) (hy : .real y ∈ rest) : ∃ z, x = .real z := by
  obtain ⟨xs, hxs, h⟩ := bind_eq_ok h
  exact Num.chain_real h ⟨y, List.mem_cons_of_mem _ (Num.real_mem_of_ofValues hxs hy)⟩

lemma real_mem_operands {a : Num} {xs : List Num} (ha : Num.ofValue first = .ok a)
    (hxs : Num.ofValues rest = .ok xs) (hy : .real y ∈ first :: rest) : .real y ∈ a :: xs := by
  refine Num.real_mem_of_ofValues ?_ hy
  rw [Num.ofValues, ha, hxs]
  rfl

lemma product_real (h : product first rest = .ok x) (hy : .real y ∈ first :: rest) :
    ∃ z, x = .real z := by
  obtain ⟨xs, hxs, h⟩ := bind_eq_ok h
  obtain ⟨a, ha, h⟩ := bind_eq_ok h
  exact Num.chain_real h ⟨y, real_mem_operands ha hxs hy⟩

lemma difference_real (h : difference first rest = .ok x) (hy : .real y ∈ first :: rest) :
    ∃ z, x = .real z := by
  obtain ⟨a, ha, h⟩ := bind_eq_ok h
  obtain ⟨xs, hxs, h⟩ := bind_eq_ok h
  have hmem := real_mem_operands ha hxs hy
  split at h
  · obtain rfl := List.mem_singleton.1 hmem
    cases h
    exact ⟨-y, rfl⟩
  · exact Num.chain_real h ⟨y, hmem⟩

end Arithmetic

namespace LibraryFunction

inductive Combines : LibraryFunction → List Int64 → Calculation → List ℤ → ℤ → Prop
  | sum (ns : List Int64) : Combines add ns .addition
      ((ns.map Int64.toInt).scanl (· + ·) 0) (ns.map Int64.toInt).sum
  | product (n : Int64) (ns : List Int64) : Combines multiply (n :: ns) .multiplication
      ((ns.map Int64.toInt).scanl (· * ·) n.toInt) ((n :: ns).map Int64.toInt).prod
  | difference (n : Int64) (ns : List Int64) : Combines subtract (n :: ns) .subtraction
      ((ns.map Int64.toInt).scanl (· - ·) n.toInt) (n.toInt - (ns.map Int64.toInt).sum)

structure Exact (what : Calculation) (partials : List ℤ) (result : ℤ) (next : Int64 → Run Value)
    (run : Run Value) : Prop where
  fits : (∀ m ∈ partials, m ∈ Integer.range) → ∃ r : Int64, r.toInt = result ∧ run = next r
  overflows : (∃ m ∈ partials, m ∉ Integer.range) →
    run = Run.fail (.failure (.integerOverflow what) none)

open Lisplet.Num

variable {f : LibraryFunction} {what : Calculation} {partials : List ℤ} {result : ℤ}
variable {x y : Num} {xs : List Num} {ns : List Int64}

lemma exact_chain {onInts : ℤ → ℤ → ℤ} {onReals : Float → Float → Float} {n : Int64}
    (hresult : (ns.map Int64.toInt).foldl onInts n.toInt = result) (xs : List Num) :
    Exact what ((ns.map Int64.toInt).scanl onInts n.toInt) result
      (fun r => Library.number (chain (combine what onInts onReals) (int r) xs))
      (Library.number (chain (combine what onInts onReals) (int n) (ns.map int ++ xs))) where
  fits h := by
    obtain ⟨r, hr, hchain⟩ := chain_of_fits h xs
    exact ⟨r, hr.trans hresult, congrArg Library.number hchain⟩
  overflows h := congrArg Library.number (chain_of_overflow h xs)

lemma call_sum : add.call (xs.map toValue) = Library.number (chain Num.add (int 0) xs) := by
  rw [call, run_values, Arithmetic.sum, ofValues_toValue]
  rfl

lemma call_product :
    multiply.call ((x :: xs).map toValue) = Library.number (chain Num.multiply x xs) := by
  rw [call, List.map_cons, run_someValues, Arithmetic.product, ofValues_toValue, ofValue_toValue]
  rfl

lemma call_difference :
    subtract.call ((x :: y :: xs).map toValue) =
      Library.number (chain Num.subtract x (y :: xs)) := by
  rw [call, List.map_cons, run_someValues, Arithmetic.difference, ofValues_toValue,
    ofValue_toValue]
  rfl

lemma call_negation : subtract.call [x.toValue] = Library.number x.negate := by
  rw [call, run_someValues, Arithmetic.difference, ofValue_toValue]
  rfl

lemma chain_zero (n : Int64) (xs : List Num) :
    chain Num.add (int 0) (int n :: xs) = chain Num.add (int n) xs := by
  have hzero : (0 : Int64).toInt + n.toInt = n.toInt := Int.zero_add _
  rw [chain, Num.add, combine, exactly, hzero, Integer.fit?_eq_some_iff.2 rfl]
  rfl

lemma foldl_sub (n : ℤ) (ms : List ℤ) : ms.foldl (· - ·) n = n - ms.sum := by
  induction ms generalizing n with
  | nil => simp
  | cons m ms ih => rw [List.foldl_cons, ih, List.sum_cons, Int.sub_sub]

lemma foldl_mul (n : ℤ) (ms : List ℤ) : ms.foldl (· * ·) n = (n :: ms).prod := by
  rw [List.prod_eq_foldl, List.foldl_cons, Int.one_mul]

lemma exact_negation (n : Int64) :
    Exact .negation [-n.toInt] (-n.toInt) (fun r => pure (.number r))
      (subtract.call [.number n]) := by
  have hcall : subtract.call [.number n] = Library.number (exactly .negation (-n.toInt)) :=
    call_negation (x := int n)
  constructor
  case fits =>
    intro h
    cases hfit : Integer.fit? (-n.toInt) with
    | none => exact absurd (h _ List.mem_cons_self) (Integer.fit?_eq_none_iff.1 hfit)
    | some r =>
      refine ⟨r, Integer.fit?_eq_some_iff.1 hfit, ?_⟩
      rw [hcall, exactly, hfit]
      rfl
  case overflows =>
    intro h
    obtain ⟨m, hm, hover⟩ := h
    obtain rfl := List.mem_singleton.1 hm
    rw [hcall, exactly, Integer.fit?_eq_none_iff.2 hover]
    rfl

lemma Combines.exact_append (h : Combines f ns what partials result) (xs : List Num)
    (hf : f = subtract → ns.length = 1 → xs ≠ []) :
    ∃ step, (∀ r y ys, f.call ((int r :: y :: ys).map toValue) =
        Library.number (chain step (int r) (y :: ys))) ∧
      Exact what partials result (fun r => Library.number (chain step (int r) xs))
        (f.call ((ns.map int ++ xs).map toValue)) := by
  cases h with
  | sum ns =>
    refine ⟨Num.add, fun r y ys => ?_, ?_⟩
    · rw [call_sum, chain_zero]
    · rw [call_sum]
      exact exact_chain (n := 0) List.sum_eq_foldl.symm xs
  | product n ns =>
    refine ⟨Num.multiply, fun r y ys => call_product, ?_⟩
    have hcall : multiply.call (((n :: ns).map int ++ xs).map toValue) =
        Library.number (chain Num.multiply (int n) (ns.map int ++ xs)) := call_product
    rw [hcall]
    exact exact_chain (foldl_mul _ _) xs
  | difference n ns =>
    refine ⟨Num.subtract, fun r y ys => call_difference, ?_⟩
    have hcall : subtract.call (((n :: ns).map int ++ xs).map toValue) =
        Library.number (chain Num.subtract (int n) (ns.map int ++ xs)) := by
      cases ns with
      | cons k ns => exact call_difference
      | nil => cases xs with
        | cons x xs => exact call_difference
        | nil => exact absurd rfl (hf rfl rfl)
    rw [hcall]
    exact exact_chain (foldl_sub _ _) xs

lemma number_real {r : Except Fault Num} {w w' : World} {v : Value}
    (h : Library.number r w = some (.ok v, w')) (hr : ∀ x, r = .ok x → ∃ z, x = real z) :
    ∃ z, v = .real z := by
  obtain ⟨x, hx, rfl⟩ := map_eq_ok (Prod.ext_iff.1 (Option.some.inj h)).1
  obtain ⟨z, rfl⟩ := hr x hx
  exact ⟨z, rfl⟩

lemma call_real (hf : f ∈ [add, multiply, subtract]) {args : List Value} {z : Float}
    (hz : .real z ∈ args) {w w' : World} {v : Value} (h : f.call args w = some (.ok v, w')) :
    ∃ z, v = .real z := by
  cases args with
  | nil => cases hz
  | cons arg args =>
    simp only [List.mem_cons, List.not_mem_nil, or_false] at hf
    obtain rfl | rfl | rfl := hf
    · rw [call, run_values] at h
      exact number_real h fun _ hx => Arithmetic.sum_real hx hz
    · rw [call, run_someValues] at h
      exact number_real h fun _ hx => Arithmetic.product_real hx hz
    · rw [call, run_someValues] at h
      exact number_real h fun _ hx => Arithmetic.difference_real hx hz

/-- Sums, products and differences of integers are exact or an overflow, also in front of a real;
with a real among the numbers only a real results. -/
theorem call_exact :
    (∀ f ns what partials result, Combines f ns what partials result →
      (f = subtract → ns.length ≠ 1) →
        Exact what partials result (fun r => pure (.number r)) (f.call (ns.map .number))) ∧
    (∀ n : Int64, Exact .negation [-n.toInt] (-n.toInt) (fun r => pure (.number r))
      (subtract.call [.number n])) ∧
    (∀ f ns what partials result, Combines f ns what partials result →
      ∀ (y : Float) (xs : List Num), Exact what partials result
        (fun r => f.call (.number r :: .real y :: xs.map toValue))
        (f.call (ns.map .number ++ .real y :: xs.map toValue))) ∧
    ∀ f ∈ [add, multiply, subtract], ∀ args y, .real y ∈ args → ∀ w v w',
      f.call args w = some (.ok v, w') → ∃ z, v = .real z := by
  refine ⟨fun f ns what partials result h hf => ?_, exact_negation,
    fun f ns what partials result h y xs => ?_, fun f hf args y hy w v w' => call_real hf hy⟩
  · obtain ⟨step, -, hexact⟩ := h.exact_append [] fun he hlength => absurd hlength (hf he)
    rwa [List.append_nil, map_toValue_int] at hexact
  · obtain ⟨step, hcall, hexact⟩ := h.exact_append (real y :: xs) fun _ _ => List.cons_ne_nil _ _
    rw [List.map_append, map_toValue_int] at hexact
    simp only [← hcall] at hexact
    exact hexact

theorem call_exact_cancelled :
    add.call [.number Integer.greatest, .number 1, .number (-1)] =
        Run.fail (.failure (.integerOverflow .addition) none) ∧
      (∃ r : Int64, r.toInt = -7 ∧ subtract.call [.number (-5), .number 2, .real 0.5] =
        subtract.call [.number r, .real 0.5]) ∧
      subtract.call [.number (-7), .real 0.5] .empty = some (.ok (.real (-7.5)), .empty) ∧
      ∃ z, Value.real (-7.5) = .real z := by
  obtain ⟨hints, -, hlead, hreal⟩ := call_exact
  have hover : ∃ m ∈ [0, Integer.greatest.toInt, 0x8000000000000000, 0x7FFFFFFFFFFFFFFF],
      m ∉ Integer.range := by
    simp only [Integer.mem_range_iff]
    decide
  have hrange : ∀ m ∈ [(-5 : ℤ), -7], m ∈ Integer.range := by
    simp only [Integer.mem_range_iff]
    decide
  have hcall : subtract.call [.number (-7), .real 0.5] .empty =
      some (.ok (.real (-7.5)), .empty) := by rfl
  refine ⟨?_, ?_, hcall, ?_⟩
  · exact (hints _ _ _ _ _ (.sum [Integer.greatest, 1, -1]) nofun).overflows hover
  · exact (hlead _ _ _ _ _ (.difference (-5) [2]) 0.5 []).fits hrange
  · exact hreal subtract (by simp) _ 0.5 (by simp) _ _ _ hcall

end LibraryFunction
end Lisplet

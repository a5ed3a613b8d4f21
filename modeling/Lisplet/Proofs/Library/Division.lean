import Lisplet.Proofs.Library.Integers

/-! Division and remainder. A machine has no remainder by zero and none with a quotient out of range,
and division never asks for one there: it fails exactly where the remainder does. A quotient is an
integer as long as every step comes out even, and a real from then on. -/

namespace Lisplet

namespace Integer

def Indivisible (a b : Int64) : Prop :=
  b = 0 ∨ a = Int64.minValue ∧ b = -1

instance (a b : Int64) : Decidable (Indivisible a b) :=
  inferInstanceAs (Decidable (_ ∨ _))

def remainder? (a b : Int64) : Option Int64 :=
  if Indivisible a b then none else some (a % b)

structure Divided (a b q r : Int64) : Prop where
  eq : a.toInt = b.toInt * q.toInt + r.toInt
  lt : |r.toInt| < |b.toInt|
  sign : r = 0 ∨ r.toInt.sign = a.toInt.sign

inductive ComesOut : Int64 → List Int64 → Int64 → Prop
  | nil (q : Int64) : ComesOut q [] q
  | cons {a b m q : Int64} {bs : List Int64} : b ≠ 0 → a.toInt = b.toInt * m.toInt →
      ComesOut m bs q → ComesOut a (b :: bs) q

variable {a b q : Int64} {bs : List Int64}

lemma toInt_ne_zero (h : b ≠ 0) : b.toInt ≠ 0 :=
  fun hb => h (Int64.toInt_inj.1 hb)

lemma tdiv_mem_range (h : ¬ Indivisible a b) : a.toInt.tdiv b.toInt ∈ range := by
  obtain ⟨hb, hover⟩ := not_or.1 h
  obtain ⟨hlow, hhigh⟩ := mem_range_iff.1 (toInt_mem_range a)
  have hb := toInt_ne_zero hb
  rw [mem_range_iff]
  by_cases hminus : b.toInt = -1
  · -- only the negation of the least integer is out of range
    have ha : a.toInt ≠ -0x8000000000000000 := fun h =>
      hover ⟨Int64.toInt_inj.1 h, Int64.toInt_inj.1 hminus⟩
    rw [hminus, Int.tdiv_neg, Int.tdiv_one]
    omega
  by_cases hone : b.toInt = 1
  · rw [hone, Int.tdiv_one]
    exact ⟨hlow, hhigh⟩
  · have hle : a.toInt.natAbs / b.toInt.natAbs ≤ a.toInt.natAbs / 2 :=
      Nat.div_le_div_left (by omega) Nat.two_pos
    have habs : (a.toInt.tdiv b.toInt).natAbs = a.toInt.natAbs / b.toInt.natAbs :=
      Int.natAbs_tdiv _ _
    omega

lemma divided_of_tdiv (hb : b ≠ 0) (hq : q.toInt = a.toInt.tdiv b.toInt) :
    Divided a b q (a % b) where
  eq := by rw [hq, Int64.toInt_mod, Int.mul_tdiv_add_tmod]
  lt := by
    have hpos : 0 < b.toInt.natAbs := Int.natAbs_pos.2 (toInt_ne_zero hb)
    rw [Int64.toInt_mod, Int.abs_eq_natAbs, Int.abs_eq_natAbs, Int.natAbs_tmod, Int.ofNat_lt]
    exact Nat.mod_lt _ hpos
  sign := by
    rw [← Int64.toInt_inj, Int64.toInt_zero, Int64.toInt_mod, ← Int.sign_eq_zero_iff_zero,
      Int.sign_tmod]
    split
    · exact .inl rfl
    · exact .inr rfl

lemma exists_divided (h : ¬ Indivisible a b) : ∃ q : Int64,
    fit? (a.toInt.tdiv b.toInt) = some q ∧ Divided a b q (a % b) := by
  cases hq : fit? (a.toInt.tdiv b.toInt) with
  | none => exact absurd (tdiv_mem_range h) (fit?_eq_none_iff.1 hq)
  | some q => exact ⟨q, rfl, divided_of_tdiv (not_or.1 h).1 (fit?_eq_some_iff.1 hq)⟩

lemma fit?_tmod (a b : Int64) : fit? (a.toInt.tmod b.toInt) = some (a % b) :=
  fit?_eq_some_iff.2 (Int64.toInt_mod a b)

lemma ComesOut.mul_prod (h : ComesOut a bs q) : q.toInt * (bs.map Int64.toInt).prod = a.toInt := by
  induction h with
  | nil q => simp
  | cons _ ha _ ih => rw [List.map_cons, List.prod_cons, ha, ← ih, mul_left_comm]

end Integer

/-! The machine. -/

/-- Calculations on a machine: an outcome, or nothing if the machine traps. -/
abbrev Machine := ExceptT Fault Option

namespace Machine

variable {α β : Type}

def ofExcept (x : Except Fault α) : Machine α :=
  ExceptT.mk (some x)

def divide (a b : Num) : Machine Num :=
  if b.toReal == 0.0 then ofExcept (.error (.failure .divisionByZero none))
  else match a, b with
    | .int a, .int b => do
      let quotient ← ofExcept (Num.exactly .division (a.toInt.tdiv b.toInt))
      let remainder ← ExceptT.lift (Integer.remainder? a b)
      pure (if remainder = 0 then quotient else .real ((Num.int a).toReal / (Num.int b).toReal))
    | a, b => ofExcept (Num.finitely .division (a.toReal / b.toReal))

def chain : Num → List Num → Machine Num
  | acc, [] => pure acc
  | acc, x :: xs => do chain (← divide acc x) xs

def quotient (first : Value) (rest : List Value) : Machine Num := do
  let first ← ofExcept (Num.ofValue first)
  let rest ← ofExcept (Num.ofValues rest)
  chain first rest

def toRun (x : Machine Num) : Run Value :=
  fun world => x.run.map fun outcome => (outcome.map Num.toValue, world)

def callDivide : List Value → Run Value :=
  LibraryFunction.someValues.run fun first rest => toRun (quotient first rest)

lemma ofExcept_bind (x : Except Fault α) {f : α → Machine β} {g : α → Except Fault β}
    (h : ∀ a, x = .ok a → f a = ofExcept (g a)) : (ofExcept x >>= f) = ofExcept (x.bind g) := by
  cases x with
  | error fault => rfl
  | ok a => exact h a rfl

end Machine

namespace Num

variable {a b x : Num} {xs ys : List Num} {m n k : Int64} {ns : List Int64}

lemma isZero_int (n : Int64) : ((int n).toReal == 0.0) = decide (n = 0) := by
  by_cases hn : n = 0
  · rw [hn]
    rfl
  · obtain ⟨s, m, e, hm, he, _⟩ :=
      Decimal.normal_ofInt (Integer.toInt_ne_zero hn) (Decimal.natAbs_toInt_lt n)
    have hbeq : ((int n).toReal == 0.0) =
        ((int n).toReal.toModel.unpack.compare (0.0 : Float).toModel.unpack == some .eq) := rfl
    rw [decide_eq_false hn, hbeq, toReal, he]
    cases s <;> rfl

lemma divide_int (h : n ≠ 0) : divide (int m) (int n) = divideInts m n := by
  rw [divide, isZero_int, decide_eq_false h]
  rfl

lemma divide_indivisible (h : Integer.Indivisible m n) :
    ∃ cause, divide (int m) (int n) = .error (.failure cause none) := by
  obtain rfl | ⟨rfl, rfl⟩ := h
  · exact ⟨.divisionByZero, by rw [divide, isZero_int]; rfl⟩
  · exact ⟨.integerOverflow .division, divide_int (by decide)⟩

lemma tmod_eq_zero : m.toInt.tmod n.toInt = 0 ↔ m % n = 0 := by
  rw [← Int64.toInt_inj, Int64.toInt_mod, Int64.toInt_zero]

lemma divide_divided (h : ¬ Integer.Indivisible m n) : ∃ q, Integer.Divided m n q (m % n) ∧
    divide (int m) (int n) =
      .ok (if m % n = 0 then int q else real ((int m).toReal / (int n).toReal)) := by
  obtain ⟨q, hq, hdivided⟩ := Integer.exists_divided h
  refine ⟨q, hdivided, ?_⟩
  rw [divide_int (not_or.1 h).1, divideInts, exactly, hq]
  simp only [Except.map, tmod_eq_zero]

lemma divide_eq_int : divide (int m) (int n) = .ok (int k) ↔
    n ≠ 0 ∧ m.toInt = n.toInt * k.toInt := by
  constructor
  case mp =>
    intro h
    by_cases hmn : Integer.Indivisible m n
    · obtain ⟨cause, herror⟩ := divide_indivisible hmn
      rw [herror] at h
      cases h
    · obtain ⟨q, hdivided, hok⟩ := divide_divided hmn
      rw [hok] at h
      split at h
      next hr =>
        cases h
        refine ⟨(not_or.1 hmn).1, ?_⟩
        rw [hdivided.eq, hr, Int64.toInt_zero, Int.add_zero]
      next => cases h
  case mpr =>
    rintro ⟨hn, hm⟩
    have hk : Integer.fit? k.toInt = some k := Integer.fit?_eq_some_iff.2 rfl
    rw [divide_int hn, divideInts, hm, Int.mul_tdiv_cancel_left _ (Integer.toInt_ne_zero hn),
      exactly, hk, Int.mul_tmod_right]
    rfl

lemma divide_real {y : Float} (h : divide (real y) b = .ok x) : ∃ z, x = real z := by
  unfold divide at h
  split at h
  · cases h
  · exact finitely_real h

lemma chain_append (step : Num → Num → Except Fault Num) :
    chain step a (xs ++ ys) = (chain step a xs).bind fun c => chain step c ys := by
  induction xs generalizing a with
  | nil => rfl
  | cons b xs ih =>
    rw [List.cons_append, chain, chain]
    cases step a b with
    | error fault => rfl
    | ok c => exact ih

lemma chain_divide_real {y : Float} (h : chain divide (real y) xs = .ok x) :
    ∃ z, x = real z := by
  induction xs generalizing y with
  | nil =>
    cases h
    exact ⟨y, rfl⟩
  | cons b xs ih =>
    obtain ⟨c, hc, h⟩ := bind_eq_ok h
    obtain ⟨z, rfl⟩ := divide_real hc
    exact ih h

lemma chain_divide_eq_int : chain divide (int m) (ns.map int) = .ok (int k) ↔
    Integer.ComesOut m ns k := by
  induction ns generalizing m with
  | nil =>
    refine ⟨fun h => ?_, fun h => ?_⟩
    · cases h
      exact .nil _
    · cases h
      rfl
  | cons n ns ih =>
    refine ⟨fun h => ?_, fun h => ?_⟩
    · obtain ⟨c, hc, h⟩ := bind_eq_ok h
      cases c with
      | int c =>
        obtain ⟨hn, hm⟩ := divide_eq_int.1 hc
        exact .cons hn hm (ih.1 h)
      | real y =>
        obtain ⟨z, hz⟩ := chain_divide_real h
        cases hz
    · obtain _ | ⟨hn, hm, h⟩ := h
      rw [List.map_cons, chain, divide_eq_int.2 ⟨hn, hm⟩]
      exact ih.2 h

lemma chain_divide_uneven (h : Integer.ComesOut m ns k) (hn : ¬ n.toInt ∣ k.toInt)
    (hx : chain divide (int m) (ns.map int ++ int n :: xs) = .ok x) : ∃ z, x = real z := by
  rw [chain_append, chain_divide_eq_int.2 h] at hx
  obtain ⟨c, hc, hx⟩ : ∃ c, divide (int k) (int n) = .ok c ∧ chain divide c xs = .ok x :=
    bind_eq_ok hx
  cases c with
  | int l => exact absurd (Dvd.intro _ (divide_eq_int.1 hc).2.symm) hn
  | real y => exact chain_divide_real hx

end Num

namespace Machine

lemma divide_eq (a b : Num) : divide a b = ofExcept (Num.divide a b) := by
  unfold divide Num.divide
  split
  next => rfl
  next hzero =>
    cases a with
    | real x => rfl
    | int m => cases b with
      | real y => rfl
      | int n =>
        rw [Num.isZero_int, decide_eq_true_iff] at hzero
        by_cases h : Integer.Indivisible m n
        · obtain hn | ⟨rfl, rfl⟩ := h
          · exact absurd hn hzero
          · rfl
        · obtain ⟨q, hq, -⟩ := Integer.exists_divided h
          have hr : Integer.remainder? m n = some (m % n) := if_neg h
          simp only [Num.divideInts, Num.exactly, hq, hr, Except.map, Num.tmod_eq_zero]
          rfl

lemma chain_eq (a : Num) (xs : List Num) : chain a xs = ofExcept (Num.chain Num.divide a xs) := by
  induction xs generalizing a with
  | nil => rfl
  | cons b xs ih =>
    rw [chain, divide_eq]
    exact ofExcept_bind _ fun c _ => ih c

lemma quotient_eq (first : Value) (rest : List Value) :
    quotient first rest = ofExcept (Arithmetic.quotient first rest) :=
  ofExcept_bind _ fun x _ => ofExcept_bind _ fun xs _ => chain_eq x xs

lemma callDivide_eq : callDivide = LibraryFunction.divide.call := by
  have hrun : (fun first rest => toRun (quotient first rest)) =
      fun first rest => Library.number (Arithmetic.quotient first rest) := by
    funext first rest
    rw [quotient_eq]
    rfl
  rw [callDivide, hrun]
  rfl

end Machine

namespace Arithmetic

variable {a b : Int64}

lemma remainder_indivisible (h : Integer.Indivisible a b) :
    ∃ cause, remainder a b = .error (.failure cause none) := by
  obtain rfl | ⟨rfl, rfl⟩ := h
  · exact ⟨.divisionByZero, rfl⟩
  · exact ⟨.integerOverflow .remainder, rfl⟩

lemma remainder_divided (h : ¬ Integer.Indivisible a b) : remainder a b = .ok (.int (a % b)) := by
  obtain ⟨q, hq, -⟩ := Integer.exists_divided h
  rw [remainder, if_neg (Integer.toInt_ne_zero (not_or.1 h).1), Num.exactly, hq, Num.exactly,
    Integer.fit?_tmod]
  rfl

end Arithmetic

namespace LibraryFunction

open Lisplet.Num

variable {f : LibraryFunction} {args : List Value} {v : Value} {w w' : World}

lemma call_quotient (x : Num) (xs : List Num) :
    divide.call ((x :: xs).map toValue) = Library.number (chain Num.divide x xs) := by
  rw [call, List.map_cons, run_someValues, Arithmetic.quotient, ofValue_toValue, ofValues_toValue]
  rfl

lemma call_divide_pair (a b : Int64) :
    divide.call [.number a, .number b] = Library.number (Num.divide (int a) (int b)) := by
  refine (call_quotient (int a) [int b]).trans (congrArg Library.number ?_)
  rw [chain]
  cases Num.divide (int a) (int b) <;> rfl

lemma call_remainder_pair (a b : Int64) :
    remainder.call [.number a, .number b] = Library.number (Arithmetic.remainder a b) := rfl

lemma outcome_run {signature : Signature} {f : signature.Handler (Run Value)}
    (h : ∀ run, Signature.Applied signature.fixed signature.rest f args run →
      ∃ result, run = Library.number result) :
    ∃ outcome, signature.run f args w = some (outcome, w) := by
  rw [Signature.run]
  cases hrun : signature.call f args with
  | error fault => exact ⟨_, rfl⟩
  | ok run =>
    obtain ⟨result, rfl⟩ := h run (Signature.applied_of_call hrun)
    exact ⟨_, rfl⟩

lemma exists_outcome (hf : f ∈ [divide, remainder]) (args : List Value) (w : World) :
    ∃ outcome, f.call args w = some (outcome, w) := by
  simp only [List.mem_cons, List.not_mem_nil, or_false] at hf
  obtain rfl | rfl := hf
  · refine outcome_run fun run ha => ?_
    obtain _ | _ | ⟨_, _ | _⟩ := ha
    exact ⟨_, rfl⟩
  · refine outcome_run fun run ha => ?_
    obtain _ | _ | ⟨_, _ | _ | ⟨_, ⟨⟩⟩⟩ := ha
    exact ⟨_, rfl⟩

lemma numbers_of_divide (h : divide.call args w = some (.ok v, w')) :
    ∃ xs : List Num, args = xs.map toValue := by
  cases args with
  | nil => cases h
  | cons v args =>
    rw [call, run_someValues] at h
    obtain ⟨_, hq, -⟩ := map_eq_ok (Prod.ext_iff.1 (Option.some.inj h)).1
    obtain ⟨x, hx, hq⟩ := bind_eq_ok hq
    obtain ⟨xs, hxs, -⟩ := bind_eq_ok hq
    refine ⟨x :: xs, ?_⟩
    rw [List.map_cons, toValue_of_ofValue hx, map_toValue_of_ofValues hxs]

lemma divide_uneven {a b m : Int64} {before : List Int64} {after : List Value}
    (hbefore : Integer.ComesOut a before m) (hb : ¬ b.toInt ∣ m.toInt)
    (h : divide.call (.number a :: before.map .number ++ .number b :: after) w =
      some (.ok v, w')) : ∃ x, v = .real x := by
  obtain ⟨xs, hxs⟩ := numbers_of_divide h
  obtain ⟨_, _, _, _, hafter⟩ := List.map_eq_append_iff.1 hxs.symm
  obtain ⟨_, ys, _, _, rfl⟩ := List.map_eq_cons_iff.1 hafter
  have hargs : Value.number a :: before.map .number ++ .number b :: ys.map toValue =
      (int a :: (before.map int ++ int b :: ys)).map toValue := by
    rw [List.map_cons, List.map_append, map_toValue_int]
    rfl
  rw [hargs, call_quotient] at h
  exact number_real h fun _ hx => chain_divide_uneven hbefore hb hx

lemma number_eq_pure {result : Except Fault Num} {q : Int64} :
    Library.number result = pure (.number q) ↔ result = .ok (int q) := by
  constructor
  · intro h
    have hq : result.map toValue = .ok (.number q) :=
      (Prod.ext_iff.1 (Option.some.inj (congrFun h .empty))).1
    obtain ⟨x, rfl, hx⟩ := map_eq_ok hq
    cases x with
    | int n =>
      cases hx
      rfl
    | real y => cases hx
  · rintro rfl
    rfl

/-- Division and remainder always have an outcome, and neither makes a machine trap. Two integers
have neither quotient nor remainder, or both; a quotient is an integer exactly if all steps come out
even, and with the first that does not it becomes a real. -/
theorem call_division :
    (Machine.callDivide = divide.call ∧ ∀ f ∈ [divide, remainder], ∀ args w,
      ∃ outcome, f.call args w = some (outcome, w)) ∧
    (∀ a b, Integer.Indivisible a b → ∃ cause cause',
      divide.call [.number a, .number b] = Run.fail (.failure cause none) ∧
      remainder.call [.number a, .number b] = Run.fail (.failure cause' none)) ∧
    (∀ a b, ¬ Integer.Indivisible a b → ∃ q r, Integer.Divided a b q r ∧
      Integer.remainder? a b = some r ∧
      remainder.call [.number a, .number b] = pure (.number r) ∧
      (r = 0 → divide.call [.number a, .number b] = pure (.number q)) ∧
      (r ≠ 0 → ∃ x, divide.call [.number a, .number b] = pure (.real x))) ∧
    (∀ a bs q, (divide.call (.number a :: bs.map .number) = pure (.number q) ↔
        Integer.ComesOut a bs q) ∧
      (Integer.ComesOut a bs q → q.toInt * (bs.map Int64.toInt).prod = a.toInt)) ∧
    ∀ a before m b, Integer.ComesOut a before m → ¬ b.toInt ∣ m.toInt → ∀ after w v w',
      divide.call (.number a :: before.map .number ++ .number b :: after) w = some (.ok v, w') →
        ∃ x, v = .real x := by
  refine ⟨⟨Machine.callDivide_eq, fun f => exists_outcome⟩, fun a b h => ?_, fun a b h => ?_,
    fun a bs q => ⟨?_, Integer.ComesOut.mul_prod⟩, fun a before m b h hb after w v w' hv => ?_⟩
  · obtain ⟨cause, hdivide⟩ := divide_indivisible h
    obtain ⟨cause', hremainder⟩ := Arithmetic.remainder_indivisible h
    refine ⟨cause, cause', ?_, ?_⟩
    · rw [call_divide_pair, hdivide]
      rfl
    · rw [call_remainder_pair, hremainder]
      rfl
  · obtain ⟨q, hdivided, hdivide⟩ := divide_divided h
    refine ⟨q, a % b, hdivided, if_neg h, ?_, fun hr => ?_, fun hr => ?_⟩
    · rw [call_remainder_pair, Arithmetic.remainder_divided h]
      rfl
    · rw [call_divide_pair, hdivide, if_pos hr]
      rfl
    · rw [call_divide_pair, hdivide, if_neg hr]
      exact ⟨_, rfl⟩
  · have hargs : Value.number a :: bs.map .number = (int a :: bs.map int).map toValue := by
      rw [List.map_cons, map_toValue_int]
      rfl
    rw [hargs, call_quotient, number_eq_pure, chain_divide_eq_int]
  · exact divide_uneven h hb hv

theorem call_division_limits :
    (∃ outcome, divide.call [.string "7", .number 0] .empty = some (outcome, .empty)) ∧
      (∃ cause cause',
        divide.call [.number Int64.minValue, .number (-1)] = Run.fail (.failure cause none) ∧
        remainder.call [.number Int64.minValue, .number (-1)] =
          Run.fail (.failure cause' none)) ∧
      (∃ q r, Integer.Divided (-7) 2 q r ∧
        remainder.call [.number (-7), .number 2] = pure (.number r) ∧ r = -1) ∧
      divide.call [.number 100, .number 5, .number (-2)] = pure (.number (-10)) ∧
      divide.call [.number 100, .number 8] .empty = some (.ok (.real 12.5), .empty) ∧
      ∃ x, Value.real 12.5 = .real x := by
  obtain ⟨⟨-, houtcome⟩, hneither, hboth, heven, huneven⟩ := call_division
  have hquotient : Float.ofInt 100 / Float.ofInt 8 = 12.5 := by decide +kernel
  have hcall : divide.call [.number 100, .number 8] .empty =
      some (.ok (.real 12.5), .empty) := by
    rw [← hquotient]
    rfl
  refine ⟨houtcome divide (by simp) _ _, hneither _ _ (by decide), ?_, ?_, hcall, ?_⟩
  · obtain ⟨q, r, hdivided, hr, hremainder, -⟩ := hboth (-7) 2 (by decide)
    have hvalue : Integer.remainder? (-7) 2 = some (-1) := by decide
    exact ⟨q, r, hdivided, hremainder, Option.some.inj (hr.symm.trans hvalue)⟩
  · have hlast : Integer.ComesOut 20 [-2] (-10) := .cons (by decide) (by decide) (.nil _)
    exact (heven 100 [5, -2] (-10)).1.2 (.cons (by decide) (by decide) hlast)
  · exact huneven 100 [] 100 8 (.nil _) (by decide) [] _ _ _ hcall

end LibraryFunction

end Lisplet

import Lisplet.Proofs.Library.Results

/-! Operands that are no numbers. Calculations and comparisons read all their operands before the
first step, so that nothing the numbers come to hides such an operand. They read from left to right
and report the first that they meet; but a product reads its first factor last. -/

namespace Lisplet

lemma Kind.name_injective : Function.Injective Kind.name := by
  intro a b h
  cases a <;> cases b <;> first | rfl | exact absurd h (by decide)

namespace Value

def isNumeric : Value → Bool
  | number _ | real _ => true
  | _ => false

def stray? (values : List Value) : Option Value :=
  values.find? fun v => !v.isNumeric

def Reported (v : Value) (run : Run Value) : Prop :=
  ∃ cause, run = Run.fail (.mismatch cause none) ∧
    cause.text = "expected number, got " ++ v.kind.name

variable {v first : Value} {rest : List Value}

lemma stray?_cons_of_numeric (h : first.isNumeric = true) :
    stray? (first :: rest) = stray? rest := by
  rw [stray?, List.find?_cons_of_neg (by simp [h]), stray?]

lemma stray?_cons_of_stray (h : first.isNumeric = false) : stray? (first :: rest) = some first := by
  rw [stray?, List.find?_cons_of_pos (by simp [h])]

lemma stray?_concat_of_stray (h : stray? rest = some v) : stray? (rest ++ [first]) = some v := by
  rw [stray?] at h
  rw [stray?, List.find?_append, h, Option.some_or]

lemma stray?_concat (h : stray? rest = none) : stray? (rest ++ [first]) = stray? [first] := by
  rw [stray?] at h
  rw [stray?, List.find?_append, h, Option.none_or, stray?]

lemma reported_fail_iff {u : Value} :
    Reported v (Run.fail (u.expected .number)) ↔ u.kind = v.kind := by
  constructor
  · rintro ⟨cause, hfail, htext⟩
    have hcause : u.expected .number = .mismatch cause none :=
      Except.error.inj (Prod.ext_iff.1 (Option.some.inj (congrFun hfail .empty))).1
    cases hcause
    have hnames : "expected number, got " ++ u.kind.name =
        "expected number, got " ++ v.kind.name := htext
    exact Kind.name_injective (String.append_right_inj _ |>.1 hnames)
  · intro h
    refine ⟨.expected .number v.kind, ?_, rfl⟩
    rw [expected, h]

end Value

namespace Num

open Value

variable {α : Type} {v first : Value} {args rest : List Value}

lemma exists_ofValue (h : v.isNumeric = true) : ∃ x, ofValue v = .ok x := by
  cases v with
  | number n => exact ⟨int n, rfl⟩
  | real x => exact ⟨real x, rfl⟩
  | _ => cases h

lemma ofValue_stray (h : v.isNumeric = false) : ofValue v = .error (v.expected .number) := by
  cases v with
  | number n => cases h
  | real x => cases h
  | _ => rfl

lemma read_first {next : Num → Except Fault α} (hv : stray? (first :: rest) = some v)
    (hnext : ∀ x, stray? rest = some v → next x = .error (v.expected .number)) :
    (ofValue first).bind next = .error (v.expected .number) := by
  cases hfirst : first.isNumeric with
  | false =>
    obtain rfl : first = v := Option.some.inj ((stray?_cons_of_stray hfirst).symm.trans hv)
    rw [ofValue_stray hfirst]
    rfl
  | true =>
    obtain ⟨x, hx⟩ := exists_ofValue hfirst
    rw [stray?_cons_of_numeric hfirst] at hv
    rw [hx]
    exact hnext x hv

lemma ofValues_stray (hv : stray? args = some v) :
    ofValues args = .error (v.expected .number) := by
  induction args with
  | nil => cases hv
  | cons first rest ih =>
    refine read_first hv fun x hrest => ?_
    rw [ih hrest]
    rfl

lemma exists_ofValues (h : stray? args = none) : ∃ xs, ofValues args = .ok xs := by
  induction args with
  | nil => exact ⟨[], rfl⟩
  | cons first rest ih =>
    cases hfirst : first.isNumeric with
    | false =>
      rw [stray?_cons_of_stray hfirst] at h
      cases h
    | true =>
      rw [stray?_cons_of_numeric hfirst] at h
      obtain ⟨x, hx⟩ := exists_ofValue hfirst
      obtain ⟨xs, hxs⟩ := ih h
      refine ⟨x :: xs, ?_⟩
      rw [ofValues, hx, hxs]
      rfl

lemma read_rest {next : List Num → Except Fault α} (hv : stray? (rest ++ [first]) = some v)
    (hnext : ∀ xs, stray? [first] = some v → next xs = .error (v.expected .number)) :
    (ofValues rest).bind next = .error (v.expected .number) := by
  cases hrest : stray? rest with
  | some u =>
    obtain rfl : u = v := Option.some.inj ((stray?_concat_of_stray hrest).symm.trans hv)
    rw [ofValues_stray hrest]
    rfl
  | none =>
    obtain ⟨xs, hxs⟩ := exists_ofValues hrest
    rw [stray?_concat hrest] at hv
    rw [hxs]
    exact hnext xs hv

end Num

namespace Arithmetic

open Value

variable {v first : Value} {args rest : List Value}

lemma sum_stray (hv : stray? args = some v) : sum args = .error (v.expected .number) := by
  rw [sum, Num.ofValues_stray hv]
  rfl

lemma difference_stray (hv : stray? (first :: rest) = some v) :
    difference first rest = .error (v.expected .number) :=
  Num.read_first hv fun x hrest => by
    rw [Num.ofValues_stray hrest]
    rfl

lemma product_stray (hv : stray? (rest ++ [first]) = some v) :
    product first rest = .error (v.expected .number) :=
  Num.read_rest hv fun _ hfirst => Num.read_first hfirst nofun

lemma quotient_stray (hv : stray? (first :: rest) = some v) :
    quotient first rest = .error (v.expected .number) :=
  Num.read_first hv fun x hrest => by
    rw [Num.ofValues_stray hrest]
    rfl

lemma comparison_stray {wanted : Ordering → Bool} (hv : stray? (first :: rest) = some v) :
    comparison wanted first rest = .error (v.expected .number) :=
  Num.read_first hv fun x hrest => by
    rw [Num.ofValues_stray hrest]
    rfl

end Arithmetic

namespace LibraryFunction

open Lisplet.Value

def numeric : List LibraryFunction :=
  [add, subtract, multiply, divide, numEqual, less, greater, atMost, atLeast]

def readingOrder : LibraryFunction → List Value → List Value
  | multiply, x :: xs => xs ++ [x]
  | _, args => args

variable {f : LibraryFunction} {v : Value} {args : List Value} {wanted : Ordering → Bool}

lemma readingOrder_eq (hf : f ≠ multiply) : f.readingOrder args = args := by
  cases f with
  | multiply => exact absurd rfl hf
  | _ => rfl

lemma comparing_stray (hv : stray? args = some v) :
    comparing wanted args = Run.fail (v.expected .number) := by
  cases args with
  | nil => cases hv
  | cons x xs =>
    rw [comparing, run_someValues, Arithmetic.comparison_stray hv]
    rfl

lemma call_stray (hf : f ∈ numeric) (hv : stray? (f.readingOrder args) = some v) :
    f.call args = Run.fail (v.expected .number) := by
  cases args with
  | nil => cases f <;> cases hv
  | cons x xs =>
    simp only [numeric, List.mem_cons, List.not_mem_nil, or_false] at hf
    obtain rfl | rfl | rfl | rfl | rfl | rfl | rfl | rfl | rfl := hf
    · have hsum : Arithmetic.sum (x :: xs) = .error (v.expected .number) :=
        Arithmetic.sum_stray hv
      rw [call, run_values, hsum]
      rfl
    · rw [call, run_someValues, Arithmetic.difference_stray hv]
      rfl
    · rw [call, run_someValues, Arithmetic.product_stray hv]
      rfl
    · rw [call, run_someValues, Arithmetic.quotient_stray hv]
      rfl
    all_goals exact comparing_stray hv

lemma stray?_readingOrder_multiply (hv : stray? args = some v) :
    stray? (multiply.readingOrder args) = some ((stray? args.tail).getD v) := by
  cases args with
  | nil => cases hv
  | cons x xs =>
    rw [readingOrder, List.tail_cons]
    cases hxs : stray? xs with
    | some u => exact stray?_concat_of_stray hxs
    | none =>
      rw [stray?_concat hxs, Option.getD_none, ← hv]
      cases hx : x.isNumeric with
      | false => rw [stray?_cons_of_stray hx, stray?_cons_of_stray hx]
      | true =>
        rw [stray?_cons_of_numeric hx, stray?_cons_of_numeric hx, hxs]
        rfl

/-- A call reports the first operand it reads that is no number. This is the leftmost one, except
for a product that has one of another kind behind its first factor. -/
theorem call_reported {f : LibraryFunction} (hf : f ∈ numeric) (args : List Value) (v : Value) :
    (stray? (f.readingOrder args) = some v → Reported v (f.call args)) ∧
      (stray? args = some v → (Reported v (f.call args) ↔
        (f = multiply → ∀ u, stray? args.tail = some u → u.kind = v.kind))) := by
  refine ⟨fun hv => ?_, fun hv => ?_⟩
  · rw [call_stray hf hv, reported_fail_iff]
  · by_cases hmultiply : f = multiply
    · obtain rfl := hmultiply
      rw [call_stray hf (stray?_readingOrder_multiply hv), reported_fail_iff]
      cases stray? args.tail <;> simp
    · have hread : stray? (f.readingOrder args) = some v := by rwa [readingOrder_eq hmultiply]
      rw [call_stray hf hread, reported_fail_iff]
      exact iff_of_true rfl fun h => absurd h hmultiply

theorem call_reported_mixed :
    Reported (.string "c") (divide.call [.number 1, .number 0, .string "c", .boolean true]) ∧
      Reported (.boolean true) (multiply.call
        [.string "a", .number Integer.greatest, .number Integer.greatest, .boolean true]) ∧
      Reported (.string "b") (multiply.call [.real 0.5, .string "b", .boolean true]) := by
  refine ⟨?_, ?_, ?_⟩
  · exact (call_reported (by decide) _ _).1 rfl
  · exact (call_reported (by decide) _ _).1 rfl
  · refine ((call_reported (by decide) _ _).2 rfl).2 fun _ u hu => ?_
    exact congrArg kind (Option.some.inj hu.symm)

theorem product_reports_right :
    stray? [.string "a", .boolean true] = some (.string "a") ∧
      multiply.arity.broken? 2 = none ∧
      multiply.call [.string "a", .boolean true] =
        Run.fail (.mismatch (.expected .number .boolean) none) ∧
      ¬ Reported (.string "a") (multiply.call [.string "a", .boolean true]) := by
  have hcall : multiply.call [.string "a", .boolean true] =
      Run.fail (expected .number (.boolean true)) := rfl
  refine ⟨rfl, rfl, hcall, ?_⟩
  rw [hcall, reported_fail_iff]
  decide

end LibraryFunction

end Lisplet

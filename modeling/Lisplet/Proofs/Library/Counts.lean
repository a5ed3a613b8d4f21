import Lisplet.Proofs.Eval.Context

/-! Numbers of operands. An operation of the library checks how many there are before it evaluates
any of them, and then none of its functions ever finds their number wrong. -/

namespace Lisplet

namespace Arity

variable {arity : Arity} {got bound : ℕ}

def Accepts : Arity → ℕ → Prop
  | exact count, got => got = count
  | atLeast least, got => least ≤ got
  | range least greatest, got => least ≤ got ∧ got ≤ greatest
  | any, _ => True

def Nearest (arity : Arity) (got bound : ℕ) : Prop :=
  arity.Accepts bound ∧ ∀ n, arity.Accepts n → got < bound ∧ bound ≤ n ∨ n ≤ bound ∧ bound < got

lemma broken?_eq_none_iff : arity.broken? got = none ↔ arity.Accepts got := by
  cases arity with
  | range least greatest =>
    simp only [broken?, Accepts]
    split_ifs
    all_goals simp
    all_goals omega
  | _ => simp [broken?, Accepts]

instance (arity : Arity) (got : ℕ) : Decidable (arity.Accepts got) :=
  decidable_of_iff _ broken?_eq_none_iff

lemma nearest_of_broken? (hsome : ∃ n, arity.Accepts n) (h : arity.broken? got = some bound) :
    arity.Nearest got bound := by
  obtain ⟨n, hn⟩ := hsome
  cases arity with
  | exact count =>
    simp only [broken?] at h
    split_ifs at h with hne
    cases h
    refine ⟨rfl, fun m hm => ?_⟩
    simp only [Accepts] at hm
    omega
  | atLeast least =>
    simp only [broken?] at h
    split_ifs at h with hlt
    cases h
    exact ⟨le_rfl, fun m hm => .inl ⟨hlt, hm⟩⟩
  | range least greatest =>
    have hle : least ≤ greatest := hn.1.trans hn.2
    simp only [broken?] at h
    split_ifs at h with hlt hgt
    · cases h
      exact ⟨⟨le_rfl, hle⟩, fun m hm => .inl ⟨hlt, hm.1⟩⟩
    · cases h
      exact ⟨⟨hle, le_rfl⟩, fun m hm => .inr ⟨hm.2, hgt⟩⟩
  | any => cases h

end Arity

lemma Builtin.exists_accepts (b : Builtin) : ∃ n, b.arity.Accepts n := by
  rcases b with f | f <;> cases f
  all_goals first | exact ⟨1, by decide⟩ | exact ⟨2, by decide⟩

/-! Outcomes and runs. -/

def Fault.IsArity : Fault → Prop
  | arity .. => True
  | _ => False

variable {α β : Type}

def Counted (x : Except Fault α) : Prop :=
  ∀ fault, x = .error fault → ¬ fault.IsArity

section

variable {x : Except Fault α} {a : α} {fault : Fault}

lemma counted_ok : Counted (.ok a : Except Fault α) :=
  nofun

lemma counted_error (h : ¬ fault.IsArity) : Counted (.error fault : Except Fault α) := by
  rintro _ ⟨⟩
  exact h

lemma Counted.bind {f : α → Except Fault β} (h : Counted x) (hf : ∀ a, Counted (f a)) :
    Counted (x.bind f) := by
  cases x with
  | error fault => exact counted_error (h fault rfl)
  | ok a => exact hf a

lemma Counted.map {f : α → β} (h : Counted x) : Counted (x.map f) := by
  cases x with
  | error fault => exact counted_error (h fault rfl)
  | ok a => exact counted_ok

end

namespace Num

variable {a b x : Num} {xs : List Num} {what : Calculation}

lemma counted_ofValue (v : Value) : Counted (ofValue v) := by
  cases v with
  | number n => exact counted_ok
  | real x => exact counted_ok
  | _ => exact counted_error id

lemma counted_ofValues (vs : List Value) : Counted (ofValues vs) := by
  induction vs with
  | nil => exact counted_ok
  | cons v vs ih => exact (counted_ofValue v).bind fun x => ih.map

lemma counted_exactly (n : ℤ) : Counted (exactly what n) := by
  rw [exactly]
  split
  · exact counted_ok
  · exact counted_error id

lemma counted_finitely (x : Float) : Counted (finitely what x) := by
  rw [finitely]
  split
  · exact counted_ok
  · exact counted_error id

lemma counted_combine {onInts : ℤ → ℤ → ℤ} {onReals : Float → Float → Float} :
    Counted (combine what onInts onReals a b) := by
  cases a <;> cases b
  · exact counted_exactly _
  all_goals exact counted_finitely _

lemma counted_negate : Counted a.negate := by
  cases a with
  | int n => exact counted_exactly _
  | real x => exact counted_ok

lemma counted_divide : Counted (divide a b) := by
  unfold divide
  split
  · exact counted_error id
  · cases a <;> cases b
    · exact (counted_exactly _).map
    all_goals exact counted_finitely _

lemma counted_chain {step : Num → Num → Except Fault Num} (hstep : ∀ a b, Counted (step a b)) :
    Counted (chain step a xs) := by
  induction xs generalizing a with
  | nil => exact counted_ok
  | cons x xs ih => exact (hstep a x).bind fun _ => ih

end Num

namespace Arithmetic

open Lisplet.Num

variable {first : Value} {rest : List Value}

lemma counted_sum : Counted (sum rest) :=
  (counted_ofValues rest).bind fun _ => counted_chain fun _ _ => counted_combine

lemma counted_difference : Counted (difference first rest) := by
  refine (counted_ofValue first).bind fun a => (counted_ofValues rest).bind fun xs => ?_
  cases xs with
  | nil => exact counted_negate
  | cons x xs => exact counted_chain fun _ _ => counted_combine

lemma counted_product : Counted (product first rest) :=
  (counted_ofValues rest).bind fun _ => (counted_ofValue first).bind fun _ =>
    counted_chain fun _ _ => counted_combine

lemma counted_quotient : Counted (quotient first rest) :=
  (counted_ofValue first).bind fun _ => (counted_ofValues rest).bind fun _ =>
    counted_chain fun _ _ => counted_divide

lemma counted_remainder {a b : Int64} : Counted (remainder a b) := by
  rw [remainder]
  split
  · exact counted_error id
  · exact (counted_exactly _).bind fun _ => counted_exactly _

lemma counted_comparison {wanted : Ordering → Bool} : Counted (comparison wanted first rest) :=
  (counted_ofValue first).bind fun _ => (counted_ofValues rest).map

end Arithmetic

namespace Run

def Counted (run : Run α) : Prop :=
  ∀ w, ∃ r w', run w = some (r, w') ∧ Lisplet.Counted r

variable {x : Except Fault α} {fault : Fault} {a : α} {run : Run α} {f : α → Run β}

lemma counted_ofExcept (h : Lisplet.Counted x) : (ofExcept x).Counted :=
  fun w => ⟨x, w, rfl, h⟩

lemma counted_fail (h : ¬ fault.IsArity) : (fail fault : Run α).Counted :=
  counted_ofExcept (counted_error h)

lemma counted_pure : (pure a : Run α).Counted :=
  fun w => ⟨.ok a, w, rfl, counted_ok⟩

lemma Counted.bind (h : run.Counted) (hf : ∀ a, (f a).Counted) : (run >>= f).Counted := by
  intro w
  obtain ⟨r, w₁, hrun, hr⟩ := h w
  cases r with
  | error fault => exact ⟨.error fault, w₁, bind_of_error hrun, counted_error (hr fault rfl)⟩
  | ok a =>
    rw [bind_of_ok hrun]
    exact hf a w₁

lemma counted_print (text : String) : (print text).Counted :=
  fun _ => ⟨_, _, rfl, counted_ok⟩

lemma counted_newList (items : List Value) : (newList items).Counted :=
  fun _ => ⟨_, _, rfl, counted_ok⟩

end Run

namespace Signature

lemma counted_run {signature : Signature} {f : signature.Handler (Run α)} {args : List Value}
    (htakes : signature.Takes args.length)
    (h : Always Run.Counted signature.fixed signature.rest f) : (signature.run f args).Counted := by
  obtain ⟨outcome, hanswers⟩ := exists_answers f args
  rw [Signature.run, hanswers.call_eq]
  cases hanswers with
  | count hnot => exact absurd htakes hnot
  | refused => exact Run.counted_fail id
  | applied _ happlied => exact happlied.of_always h

end Signature

namespace LibraryFunction

open Run Signature

variable {args : List Value}

lemma counted_number {result : Except Fault Num} (h : Lisplet.Counted result) :
    (Library.number result).Counted :=
  counted_ofExcept h.map

lemma counted_truth {result : Except Fault Bool} (h : Lisplet.Counted result) :
    (Library.truth result).Counted :=
  counted_ofExcept h.map

lemma counted_first (items : List Value) : (Library.first items).Counted := by
  cases items with
  | nil => exact counted_fail id
  | cons v vs => exact counted_pure

lemma counted_rest (items : List Value) : (Library.rest items).Counted := by
  cases items with
  | nil => exact counted_fail id
  | cons v vs => exact counted_newList vs

lemma counted_cons (v w : Value) : (Library.cons v w).Counted := by
  cases w with
  | list mark items => exact counted_newList _
  | _ => exact counted_fail id

lemma counted_length (v : Value) : (Library.length v).Counted := by
  cases v with
  | list mark items => exact counted_pure
  | string s => exact counted_pure
  | _ => exact counted_fail id

lemma counted_echo (args : List Value) : (Library.echo args).Counted :=
  (counted_print _).bind fun _ => counted_pure

lemma counted_comparing {wanted : Ordering → Bool} (h : 2 ≤ args.length) :
    (comparing wanted args).Counted :=
  counted_run (Nat.le_of_succ_le h) fun _ _ => counted_truth Arithmetic.counted_comparison

theorem counted_call (f : LibraryFunction) (h : f.arity.Accepts args.length) :
    (f.call args).Counted := by
  cases f with
  | add => exact counted_run (Nat.zero_le _) fun _ => counted_number Arithmetic.counted_sum
  | subtract => exact counted_run h fun _ _ => counted_number Arithmetic.counted_difference
  | multiply => exact counted_run h fun _ _ => counted_number Arithmetic.counted_product
  | divide =>
    exact counted_run (Nat.le_of_succ_le h) fun _ _ => counted_number Arithmetic.counted_quotient
  | remainder => exact counted_run h fun _ _ => counted_number Arithmetic.counted_remainder
  | numEqual => exact counted_comparing h
  | less => exact counted_comparing h
  | greater => exact counted_comparing h
  | atMost => exact counted_comparing h
  | atLeast => exact counted_comparing h
  | equal => exact counted_run h fun _ _ => counted_pure
  | negate => exact counted_run h fun _ => counted_pure
  | list => exact counted_run (Nat.zero_le _) counted_newList
  | first => exact counted_run h counted_first
  | rest => exact counted_run h counted_rest
  | cons => exact counted_run h counted_cons
  | length => exact counted_run h counted_length
  | isEmpty => exact counted_run h fun _ => counted_pure
  | concat => exact counted_run (Nat.zero_le _) fun _ => counted_pure
  | echo => exact counted_run (Nat.zero_le _) counted_echo
  | fail => exact counted_run (Nat.zero_le _) fun _ => counted_fail id

end LibraryFunction

/-! Evaluation. -/

namespace Eval

variable {go : Performer} {host : Host} {scope : Scope} {forms operands vs : List Value}
  {w w' : World} {fault : Fault}

def Fails (go : Performer) (scope : Scope) (forms : List Value) (fault : Fault) (w' : World) :
    Prop :=
  ∃ form ∈ forms, ∃ w, go (.eval form) scope w = some (.error fault, w')

lemma Stops.fails (h : Stops go scope forms w fault w') : Fails go scope forms fault w' := by
  induction h with
  | here hform => exact ⟨_, List.mem_cons_self, _, hform⟩
  | later _ _ ih => exact ih.imp fun _ hform => hform.imp_left (List.mem_cons_of_mem _)

lemma fails_of_args (h : args go forms scope w = some (.error fault, w')) :
    Fails go scope forms fault w' := by
  induction forms generalizing w with
  | nil => cases h
  | cons form forms ih =>
    rw [args, List.mapM_cons] at h
    rcases Run.bind_eq_some h with ⟨v, w₁, -, h⟩ | ⟨_, hform, ⟨⟩⟩
    · rcases Run.bind_eq_some h with ⟨vs, w₂, -, ⟨⟩⟩ | ⟨_, hforms, ⟨⟩⟩
      exact (ih hforms).imp fun _ hform => hform.imp_left (List.mem_cons_of_mem _)
    · exact ⟨form, List.mem_cons_self, w, hform⟩

lemma length_of_args (h : args go forms scope w = some (.ok vs, w')) :
    vs.length = forms.length := by
  induction forms generalizing w vs with
  | nil =>
    cases h
    rfl
  | cons form forms ih =>
    rw [args, List.mapM_cons] at h
    rcases Run.bind_eq_some h with ⟨v, w₁, -, h⟩ | ⟨_, -, ⟨⟩⟩
    rcases Run.bind_eq_some h with ⟨vs, w₂, hvs, ⟨⟩⟩ | ⟨_, -, ⟨⟩⟩
    rw [List.length_cons, ih hvs, List.length_cons]

lemma fails_of_choose {test yes : Value} {no : Option Value}
    (h : choose go test yes no scope w = some (.error fault, w')) :
    Fails go scope (test :: yes :: no.toList) fault w' := by
  rcases Run.bind_eq_some h with ⟨v, w₁, -, h⟩ | ⟨_, htest, ⟨⟩⟩
  · split at h
    · cases h
    · exact ⟨_, by simp, w₁, h⟩
    · exact ⟨yes, by simp, w₁, h⟩
  · exact ⟨test, List.mem_cons_self, w, htest⟩

lemma fails_of_control {f : ControlForm} (haccepts : f.arity.Accepts operands.length)
    (h : control go f operands scope w = some (.error fault, w')) :
    Fails go scope operands fault w' := by
  cases f with
  | branch =>
    obtain ⟨hle, hge⟩ := haccepts
    match operands with
    | [] => cases hle
    | [_] => exact absurd hle (Nat.not_succ_le_self 1)
    | [test, yes] =>
      have hchoose : choose go test yes none scope w = some (.error fault, w') := h
      exact fails_of_choose hchoose
    | [test, yes, no] =>
      have hchoose : choose go test yes (some no) scope w = some (.error fault, w') := h
      exact fails_of_choose hchoose
    | _ :: _ :: _ :: _ :: _ =>
      simp only [List.length_cons] at hge
      omega
  | sequence => exact (stops_of_foldlM h).fails

lemma apply_of_not_accepts {b : Builtin} (h : ¬ b.arity.Accepts operands.length) :
    ∃ bound, b.arity.Nearest operands.length bound ∧
      apply go host (.operation (.builtin b)) operands scope w =
        some (.error (.arity bound operands.length none), w) := by
  cases hbroken : b.arity.broken? operands.length with
  | none => exact absurd (Arity.broken?_eq_none_iff.1 hbroken) h
  | some bound =>
    have hcheck : b.arity.check operands.length = .error (.arity bound operands.length none) := by
      rw [Arity.check, hbroken]
    refine ⟨bound, Arity.nearest_of_broken? b.exists_accepts hbroken, ?_⟩
    cases b <;> rw [apply, builtin, hcheck] <;> rfl

lemma fails_of_apply {b : Builtin} (haccepts : b.arity.Accepts operands.length)
    (hfault : fault.IsArity)
    (h : apply go host (.operation (.builtin b)) operands scope w = some (.error fault, w')) :
    Fails go scope operands fault w' := by
  rw [apply, builtin_of_accepted (Arity.broken?_eq_none_iff.2 haccepts)] at h
  cases b with
  | form f => exact fails_of_control haccepts h
  | function f =>
    rcases Run.bind_eq_some h with ⟨vs, w₁, hvs, h⟩ | ⟨_, hargs, ⟨⟩⟩
    · have hcount : f.arity.Accepts vs.length := by
        rw [length_of_args hvs]
        exact haccepts
      obtain ⟨r, w₂, hcall, hr⟩ := f.counted_call hcount w₁
      cases hcall.symm.trans h
      exact absurd hfault (hr fault rfl)
    · exact fails_of_args hargs

end Eval

/-- With a number of operands that its entry does not accept, an operation of the library fails at
once and names the nearest bound. With another number, no function of the library, whatever it is
called on, and no form of the library finds fault with the number: if an application fails by a
number of arguments, then that is how the evaluation of an operand has failed. -/
theorem Builtin.counts (go : Performer) (host : Host) (scope : Scope) (w : World) :
    (∀ (b : Builtin) (operands : List Value), ¬ b.arity.Accepts operands.length →
      ∃ bound, b.arity.Nearest operands.length bound ∧
        Eval.apply go host (.operation (.builtin b)) operands scope w =
          some (.error (.arity bound operands.length none), w)) ∧
    (∀ (f : LibraryFunction) (args : List Value), f.arity.Accepts args.length →
      ∃ r w', f.call args w = some (r, w') ∧ ∀ fault, r = .error fault → ¬ fault.IsArity) ∧
    (∀ (f : ControlForm) (operands : List Value) (fault : Fault) (w' : World),
      f.arity.Accepts operands.length →
      Eval.control go f operands scope w = some (.error fault, w') →
      Eval.Fails go scope operands fault w') ∧
    ∀ (b : Builtin) (operands : List Value) (fault : Fault) (w' : World),
      b.arity.Accepts operands.length → fault.IsArity →
      Eval.apply go host (.operation (.builtin b)) operands scope w = some (.error fault, w') →
      Eval.Fails go scope operands fault w' := by
  refine ⟨fun b operands h => Eval.apply_of_not_accepts h, fun f args h => f.counted_call h w,
    ?_, ?_⟩
  · exact fun f operands fault w' haccepts h => Eval.fails_of_control haccepts h
  · exact fun b operands fault w' haccepts hfault h => Eval.fails_of_apply haccepts hfault h

def Eval.failing (fault : Fault) : Performer :=
  fun _ _ => Run.fail fault

theorem Builtin.counts_negate :
    (∃ bound, (Arity.exact 1).Nearest 2 bound ∧
      Eval.apply (Eval.failing (.unbound "x")) [] (.operation (.builtin (.function .negate)))
          [.symbol "x", .number 1] ⟨0, []⟩ .empty =
        some (.error (.arity bound 2 none), .empty)) ∧
    (∃ r w', LibraryFunction.negate.call [.number 1] .empty = some (r, w') ∧
      ∀ fault, r = .error fault → ¬ fault.IsArity) ∧
    (Eval.control (Eval.failing (.unbound "x")) .branch [.symbol "x", .number 1] ⟨0, []⟩ .empty =
        some (.error (.unbound "x"), .empty) ∧
      Eval.Fails (Eval.failing (.unbound "x")) ⟨0, []⟩ [.symbol "x", .number 1] (.unbound "x")
        .empty) ∧
    Eval.apply (Eval.failing (.arity 1 0 none)) [] (.operation (.builtin (.function .negate)))
        [.symbol "x"] ⟨0, []⟩ .empty = some (.error (.arity 1 0 none), .empty) ∧
      Eval.Fails (Eval.failing (.arity 1 0 none)) ⟨0, []⟩ [.symbol "x"] (.arity 1 0 none)
        .empty := by
  obtain ⟨hrefused, hcall, hcontrol, -⟩ :=
    Builtin.counts (Eval.failing (.unbound "x")) [] ⟨0, []⟩ .empty
  obtain ⟨-, -, -, happly⟩ := Builtin.counts (Eval.failing (.arity 1 0 none)) [] ⟨0, []⟩ .empty
  refine ⟨?_, ?_, ⟨rfl, ?_⟩, rfl, ?_⟩
  · exact hrefused (.function .negate) [.symbol "x", .number 1] (by decide)
  · exact hcall .negate [.number 1] rfl
  · exact hcontrol .branch _ _ _ (by decide) rfl
  · exact happly (.function .negate) _ _ _ rfl trivial rfl

end Lisplet

import Lisplet.Proofs.Decimal.Finite
import Lisplet.Proofs.Signature
import Lisplet.Proofs.Value.Parts

/-! What the functions of the library return: parts of their arguments, plain values, and reals that
are finite or the negation of an argument. They leave all frames as they are. -/

namespace Lisplet

/-! Arithmetic. -/

namespace Value

def Plain : Value → Prop
  | real _ | symbol _ | function .. | operation _ => False
  | _ => True

structure Stable (p : Value → Prop) : Prop where
  plain {v : Value} : v.Plain → p v
  real {x : Float} : x.isFinite = true → p (.real x)
  neg {x : Float} : p (.real x) → p (.real (-x))

lemma scopes_of_plain {owns : String → List Scope} {v : Value} (h : v.Plain) :
    v.scopes owns = [] := by
  cases v <;> first | rfl | exact h.elim

lemma stable_scopes {owns : String → List Scope} {q : Scope → Prop} :
    Stable fun v => ∀ c ∈ v.scopes owns, q c where
  plain hv _ hc := absurd (scopes_of_plain hv ▸ hc) List.not_mem_nil
  real _ _ hc := absurd hc List.not_mem_nil
  neg _ _ hc := absurd hc List.not_mem_nil

end Value

variable {p : Value → Prop}

namespace Num

variable {a b x : Num} {xs : List Num} {v : Value} {what : Calculation}

lemma toValue_of_ofValue (h : ofValue v = .ok x) : x.toValue = v := by
  cases v with
  | number n =>
    cases h
    rfl
  | real y =>
    cases h
    rfl
  | _ => cases h

lemma ofValue_toValue (x : Num) : ofValue x.toValue = .ok x := by
  cases x <;> rfl

lemma ofValues_toValue (xs : List Num) : ofValues (xs.map toValue) = .ok xs := by
  induction xs with
  | nil => rfl
  | cons x xs ih =>
    rw [List.map_cons, ofValues, ofValue_toValue, ih]
    rfl

lemma map_toValue_of_ofValues {args : List Value} (h : ofValues args = .ok xs) :
    xs.map toValue = args := by
  induction args generalizing xs with
  | nil =>
    cases h
    rfl
  | cons v args ih =>
    obtain ⟨x, hx, h⟩ := bind_eq_ok h
    obtain ⟨xs, hxs, rfl⟩ := map_eq_ok h
    rw [List.map_cons, toValue_of_ofValue hx, ih hxs]

lemma exactly_stable (hp : Value.Stable p) {n : ℤ} (h : exactly what n = .ok x) : p x.toValue := by
  rw [exactly] at h
  split at h
  · cases h
    exact hp.plain trivial
  · cases h

lemma finitely_stable (hp : Value.Stable p) {y : Float} (h : finitely what y = .ok x) :
    p x.toValue := by
  rw [finitely] at h
  split at h
  · next hy =>
    cases h
    exact hp.real hy
  · cases h

lemma combine_stable (hp : Value.Stable p) {onInts : ℤ → ℤ → ℤ} {onReals : Float → Float → Float}
    (h : combine what onInts onReals a b = .ok x) : p x.toValue := by
  cases a <;> cases b
  · exact exactly_stable hp h
  all_goals exact finitely_stable hp h

lemma negate_stable (hp : Value.Stable p) (ha : p a.toValue) (h : negate a = .ok x) :
    p x.toValue := by
  cases a with
  | int n => exact exactly_stable hp h
  | real y =>
    cases h
    exact hp.neg ha

lemma toInt_ne_zero {n : Int64} (h : ¬ ((int n).toReal == 0.0) = true) : n.toInt ≠ 0 := by
  intro hn
  refine h ?_
  rw [toReal, hn]
  rfl

lemma divideInts_stable (hp : Value.Stable p) {m n : Int64} (hn : n.toInt ≠ 0)
    (h : divideInts m n = .ok x) : p x.toValue := by
  obtain ⟨q, hq, rfl⟩ := map_eq_ok h
  split
  · exact exactly_stable hp hq
  · exact hp.real (Decimal.isFinite_div_ofInt m hn)

lemma divide_stable (hp : Value.Stable p) (h : divide a b = .ok x) : p x.toValue := by
  unfold divide at h
  split at h
  · cases h
  · next hb =>
    cases a with
    | real _ => exact finitely_stable hp h
    | int m => cases b with
      | real _ => exact finitely_stable hp h
      | int n => exact divideInts_stable hp (toInt_ne_zero hb) h

lemma chain_stable {step : Num → Num → Except Fault Num}
    (hstep : ∀ {a b x}, step a b = .ok x → p x.toValue) (ha : p a.toValue)
    (h : chain step a xs = .ok x) : p x.toValue := by
  induction xs generalizing a with
  | nil =>
    cases h
    exact ha
  | cons b xs ih =>
    obtain ⟨c, hc, h⟩ := bind_eq_ok h
    exact ih (hstep hc) h

end Num

namespace Arithmetic

variable {x : Num} {first : Value} {rest : List Value}

lemma sum_stable (hp : Value.Stable p) (h : sum rest = .ok x) : p x.toValue := by
  obtain ⟨xs, _, h⟩ := bind_eq_ok h
  exact Num.chain_stable (a := .int 0) (Num.combine_stable hp) (hp.plain (v := .number 0) trivial) h

lemma difference_stable (hp : Value.Stable p) (hfirst : p first)
    (h : difference first rest = .ok x) : p x.toValue := by
  obtain ⟨a, ha, h⟩ := bind_eq_ok h
  obtain ⟨xs, _, h⟩ := bind_eq_ok h
  rw [← Num.toValue_of_ofValue ha] at hfirst
  split at h
  · exact Num.negate_stable hp hfirst h
  · exact Num.chain_stable (Num.combine_stable hp) hfirst h

lemma product_stable (hp : Value.Stable p) (hfirst : p first)
    (h : product first rest = .ok x) : p x.toValue := by
  obtain ⟨xs, _, h⟩ := bind_eq_ok h
  obtain ⟨a, ha, h⟩ := bind_eq_ok h
  rw [← Num.toValue_of_ofValue ha] at hfirst
  exact Num.chain_stable (Num.combine_stable hp) hfirst h

lemma quotient_stable (hp : Value.Stable p) (hfirst : p first)
    (h : quotient first rest = .ok x) : p x.toValue := by
  obtain ⟨a, ha, h⟩ := bind_eq_ok h
  obtain ⟨xs, _, h⟩ := bind_eq_ok h
  rw [← Num.toValue_of_ofValue ha] at hfirst
  exact Num.chain_stable (Num.divide_stable hp) hfirst h

lemma remainder_stable (hp : Value.Stable p) {a b : Int64} (h : remainder a b = .ok x) :
    p x.toValue := by
  rw [remainder] at h
  split at h
  · cases h
  · obtain ⟨_, _, h⟩ := bind_eq_ok h
    exact Num.exactly_stable hp h

end Arithmetic

/-! Functions. -/

structure World.Quiet (before after : World) : Prop where
  frames : after.store.frames = before.store.frames
  marks : before.store.marks ≤ after.store.marks
  events : ∃ events, after.transcript.events = before.transcript.events ++ events

lemma World.Quiet.refl (w : World) : w.Quiet w :=
  ⟨rfl, le_rfl, #[], (Array.append_empty).symm⟩

def Run.Gives (p : Value → Prop) (run : Run Value) : Prop :=
  ∀ w r w', run w = some (r, w') → w.Quiet w' ∧ ∀ v, r = .ok v → v.Every p

namespace Run

lemma gives_ofExcept {result : Except Fault Value} (h : ∀ v, result = .ok v → v.Every p) :
    Gives p (ofExcept result) := by
  rintro w r w' ⟨⟩
  exact ⟨.refl w, h⟩

lemma gives_fail {fault : Fault} : Gives p (fail fault) :=
  gives_ofExcept nofun

lemma gives_pure {v : Value} (h : v.Every p) : Gives p (pure v) := by
  rintro w r w' ⟨⟩
  refine ⟨.refl w, ?_⟩
  rintro _ ⟨⟩
  exact h

lemma gives_newList (hp : Value.Stable p) {items : List Value} (h : ∀ v ∈ items, v.Every p) :
    Gives p (newList items) := by
  rintro w r w' ⟨⟩
  refine ⟨⟨rfl, Nat.le_succ _, #[], (Array.append_empty).symm⟩, ?_⟩
  rintro _ ⟨⟩
  exact Value.every_iff.2 ⟨hp.plain trivial, h⟩

end Run

namespace LibraryFunction

open Run Value

variable {args : List Value}

lemma gives_run {signature : Signature} {f : signature.Handler (Run Value)}
    (h : ∀ run, Signature.Applied signature.fixed signature.rest f args run → Gives p run) :
    Gives p (signature.run f args) := by
  rw [Signature.run]
  split
  · next run hrun => exact h run (Signature.applied_of_call hrun)
  · exact gives_fail

lemma run_values {f : List Value → Run Value} : values.run f args = f args :=
  Signature.run_of_applied (.rest Element.map_toValue_value.symm)

lemma run_someValues {v : Value} {f : Value → List Value → Run Value} :
    someValues.run f (v :: args) = f v args :=
  Signature.run_of_applied (.param rfl (.rest Element.map_toValue_value.symm))

lemma gives_values {f : List Value → Run Value} (h : Gives p (f args)) :
    Gives p (values.run f args) := by
  rwa [run_values]

lemma gives_someValues {f : Value → List Value → Run Value}
    (h : ∀ v vs, args = v :: vs → Gives p (f v vs)) : Gives p (someValues.run f args) := by
  refine gives_run fun run ha => ?_
  obtain _ | _ | ⟨⟨⟩, _ | ⟨hxs⟩⟩ := ha
  exact h _ _ (congrArg _ (hxs.trans Element.map_toValue_value))

lemma gives_oneValue {f : Value → Run Value} (h : ∀ v, args = [v] → Gives p (f v)) :
    Gives p (oneValue.run f args) := by
  refine gives_run fun run ha => ?_
  obtain _ | _ | ⟨⟨⟩, ⟨⟩⟩ := ha
  exact h _ rfl

lemma gives_twoValues {f : Value → Value → Run Value}
    (h : ∀ v w, args = [v, w] → Gives p (f v w)) : Gives p (twoValues.run f args) := by
  refine gives_run fun run ha => ?_
  obtain _ | _ | ⟨⟨⟩, _ | _ | ⟨⟨⟩, ⟨⟩⟩⟩ := ha
  exact h _ _ rfl

lemma gives_oneList {f : List Value → Run Value}
    (h : ∀ mark vs, args = [.list mark vs] → Gives p (f vs)) : Gives p (oneList.run f args) := by
  refine gives_run fun run ha => ?_
  obtain _ | _ | ⟨⟨mark, rfl⟩, ⟨⟩⟩ := ha
  exact h mark _ (by rw [Element.map_toValue_value])

lemma run_oneList {mark : Option ℕ} {vs : List Value} {f : List Value → Run Value} :
    oneList.run f [.list mark vs] = f vs := by
  have hreads : (Param.list .value).Reads (.list mark vs) vs :=
    ⟨mark, by rw [Element.map_toValue_value]⟩
  have happlied : Signature.Applied oneList.fixed oneList.rest f [.list mark vs] (f vs) :=
    .param hreads (.done (f vs))
  exact Signature.run_of_applied happlied

lemma every_plain (hp : Stable p) {v : Value} (h : v.Plain) (hc : v.children = []) : v.Every p :=
  (every_leaf hc).2 (hp.plain h)

lemma gives_number {result : Except Fault Num} (h : ∀ x, result = .ok x → p x.toValue) :
    Gives p (Library.number result) := by
  refine gives_ofExcept fun v hv => ?_
  obtain ⟨x, hx, rfl⟩ := map_eq_ok hv
  exact (every_leaf (by cases x <;> rfl)).2 (h x hx)

lemma gives_truth (hp : Stable p) {result : Except Fault Bool} : Gives p (Library.truth result) := by
  refine gives_ofExcept fun v hv => ?_
  obtain ⟨b, _, rfl⟩ := map_eq_ok hv
  exact every_plain hp trivial rfl

lemma gives_comparing (hp : Stable p) (wanted : Ordering → Bool) :
    Gives p (comparing wanted args) :=
  gives_someValues fun _ _ _ => gives_truth hp

lemma gives_remainder (hp : Stable p) : Gives p (remainder.call args) :=
  gives_run fun run ha => by
    obtain _ | _ | ⟨_, _ | _ | ⟨_, ⟨⟩⟩⟩ := ha
    exact gives_number fun _ => Arithmetic.remainder_stable hp

lemma gives_negate (hp : Stable p) : Gives p (negate.call args) :=
  gives_run fun run ha => by
    obtain _ | _ | ⟨_, ⟨⟩⟩ := ha
    exact gives_pure (every_plain hp trivial rfl)

lemma gives_concat (hp : Stable p) : Gives p (concat.call args) :=
  gives_run fun run ha => by
    obtain _ | ⟨_⟩ := ha
    exact gives_pure (every_plain hp trivial rfl)

lemma gives_echo (hp : Stable p) : Gives p (Library.echo args) := by
  rintro w r w' ⟨⟩
  refine ⟨⟨rfl, le_rfl, #[], (Array.append_empty).symm⟩, ?_⟩
  rintro _ ⟨⟩
  exact every_plain hp trivial rfl

lemma gives_first {items : List Value} (h : ∀ v ∈ items, v.Every p) :
    Gives p (Library.first items) := by
  cases items with
  | nil => exact gives_fail
  | cons v vs => exact gives_pure (h v List.mem_cons_self)

lemma gives_rest (hp : Stable p) {items : List Value} (h : ∀ v ∈ items, v.Every p) :
    Gives p (Library.rest items) := by
  cases items with
  | nil => exact gives_fail
  | cons v vs => exact gives_newList hp fun w hw => h w (List.mem_cons_of_mem _ hw)

lemma gives_cons (hp : Stable p) {v w : Value} (hv : v.Every p) (hw : w.Every p) :
    Gives p (Library.cons v w) := by
  cases w with
  | list mark items =>
    exact gives_newList hp (List.forall_mem_cons.2 ⟨hv, fun _ => hw.child⟩)
  | _ => exact gives_fail

lemma gives_length (hp : Stable p) (v : Value) : Gives p (Library.length v) := by
  cases v with
  | list mark items => exact gives_pure (every_plain hp trivial rfl)
  | string s => exact gives_pure (every_plain hp trivial rfl)
  | _ => exact gives_fail

theorem call_gives (hp : Stable p) (f : LibraryFunction) (h : ∀ v ∈ args, v.Every p) :
    Gives p (f.call args) := by
  have hhead {v vs} (he : args = v :: vs) : v.Every p := h v (he ▸ List.mem_cons_self)
  cases f with
  | add => exact gives_values (gives_number fun _ => Arithmetic.sum_stable hp)
  | subtract =>
    exact gives_someValues fun _ _ he =>
      gives_number fun _ => Arithmetic.difference_stable hp (hhead he).here
  | multiply =>
    exact gives_someValues fun _ _ he =>
      gives_number fun _ => Arithmetic.product_stable hp (hhead he).here
  | divide =>
    exact gives_someValues fun _ _ he =>
      gives_number fun _ => Arithmetic.quotient_stable hp (hhead he).here
  | remainder => exact gives_remainder hp
  | numEqual => exact gives_comparing hp _
  | less => exact gives_comparing hp _
  | greater => exact gives_comparing hp _
  | atMost => exact gives_comparing hp _
  | atLeast => exact gives_comparing hp _
  | equal => exact gives_twoValues fun _ _ _ => gives_pure (every_plain hp trivial rfl)
  | negate => exact gives_negate hp
  | list => exact gives_values (gives_newList hp h)
  | first => exact gives_oneList fun _ _ he => gives_first fun _ => (hhead he).child
  | rest => exact gives_oneList fun _ _ he => gives_rest hp fun _ => (hhead he).child
  | cons =>
    exact gives_twoValues fun _ w he =>
      gives_cons hp (hhead he) (h w (he ▸ List.mem_cons_of_mem _ List.mem_cons_self))
  | length => exact gives_oneValue fun v _ => gives_length hp v
  | isEmpty => exact gives_oneValue fun _ _ => gives_pure (every_plain hp trivial rfl)
  | concat => exact gives_concat hp
  | echo => exact gives_values (gives_echo hp)
  | fail => exact gives_values gives_fail

end LibraryFunction

end Lisplet

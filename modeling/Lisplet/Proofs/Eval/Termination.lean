import Lisplet.Proofs.Library.Counts
import Lisplet.Proofs.Program.Confinement

/-! Evaluation without closures. It ends, with no more evaluations inside one another than there
are lists inside one another in the form, and leaves no closures behind. -/

namespace Lisplet

namespace Value

mutual

def depth : Value → ℕ
  | list _ items => itemsDepth items + 1
  | _ => 0

def itemsDepth : List Value → ℕ
  | [] => 0
  | v :: vs => max v.depth (itemsDepth vs)

end

variable {u v : Value} {items : List Value} {mark : Option ℕ} {c : Scope}

lemma depth_le_itemsDepth (h : v ∈ items) : v.depth ≤ itemsDepth items := by
  induction items with
  | nil => cases h
  | cons w items ih =>
    rw [itemsDepth]
    rcases List.mem_cons.1 h with rfl | h
    · exact le_max_left _ _
    · exact (ih h).trans (le_max_right _ _)

lemma depth_lt_of_mem (h : v ∈ items) : v.depth < (list mark items).depth := by
  rw [depth]
  exact Nat.lt_succ_of_le (depth_le_itemsDepth h)

lemma depth_lt_of_mem_children (hv : v.kind ≠ .function) (hu : u ∈ v.children) :
    u.depth < v.depth := by
  cases v with
  | list mark items => exact depth_lt_of_mem hu
  | function => exact absurd rfl hv
  | _ => cases hu

def Flat (v : Value) : Prop :=
  ¬ v.IsHost ∧ v.kind ≠ .function ∧ v ≠ operation (.core .lambda)

def FirstOrder (v : Value) : Prop :=
  v.Every Flat

lemma stable_flat : Stable Flat where
  plain {v} hv := by
    cases v <;> first | exact hv.elim | exact ⟨id, nofun, nofun⟩
  real _ := ⟨id, nofun, nofun⟩
  neg _ := ⟨id, nofun, nofun⟩

lemma FirstOrder.not_captures (h : v.FirstOrder) : ¬ v.Captures c := by
  rintro ⟨mark, params, body, hf⟩
  exact (h _ hf).2.1 rfl

@[simp] lemma firstOrder_list : (list mark items).FirstOrder ↔ ∀ v ∈ items, v.FirstOrder :=
  every_list.trans (and_iff_right (stable_flat.plain trivial))

@[simp] lemma firstOrder_number (n : Int64) : (number n).FirstOrder :=
  (every_leaf rfl).2 (stable_flat.plain trivial)

@[simp] lemma firstOrder_symbol (name : String) : (symbol name).FirstOrder :=
  (every_leaf rfl).2 ⟨id, nofun, nofun⟩

lemma firstOrder_unspecified : unspecified.FirstOrder :=
  (every_leaf rfl).2 (stable_flat.plain trivial)

end Value

namespace Store

variable {store store' : Store} {scope c : Scope} {name : String} {v : Value} {index : ℕ}

def FirstOrder (store : Store) (scope : Scope) : Prop :=
  ∀ c, store.Reach (· = scope) c → ∀ entry ∈ store.frame c.frame, entry.2.FirstOrder

lemma path_suffix_of_reach (h : ∀ k ∈ scope.path, ∀ entry ∈ store.frame k, entry.2.FirstOrder)
    (hc : store.Reach (· = scope) c) : c.path <:+ scope.path := by
  induction hc with
  | root hc => exact hc ▸ List.suffix_rfl
  | parent _ hp ih =>
    rw [Scope.path_of_parent? hp] at ih
    exact (List.suffix_cons _ _).trans ih
  | captured _ hv hd ih =>
    -- it would take a closure in one of the frames to get to another scope
    exact absurd hd (h _ (ih.subset List.mem_cons_self) _ hv).not_captures

lemma firstOrder_iff : store.FirstOrder scope ↔
    ∀ k ∈ scope.path, ∀ entry ∈ store.frame k, entry.2.FirstOrder := by
  constructor
  · intro h k hk entry he
    have hscope : store.Reach (· = scope) scope := .root rfl
    obtain ⟨c, hc, rfl⟩ := hscope.within.isOpen hk (lt_of_mem_frame he)
    exact h c hc entry he
  · intro h c hc
    exact h c.frame ((path_suffix_of_reach h hc).subset List.mem_cons_self)

lemma FirstOrder.of_frames_eq (h : store.FirstOrder scope) (heq : store'.frames = store.frames) :
    store'.FirstOrder scope := by
  rw [firstOrder_iff] at h ⊢
  intro k hk entry he
  rw [frame, heq] at he
  exact h k hk entry he

lemma FirstOrder.bind (h : store.FirstOrder scope) (hv : v.FirstOrder) :
    (store.bind index name v).FirstOrder scope := by
  rw [firstOrder_iff] at h ⊢
  intro k hk entry he
  rcases mem_frame_bind he with ⟨rfl, -⟩ | hold
  · exact hv
  · exact h k hk entry hold

lemma FirstOrder.get? (h : store.FirstOrder scope) (hv : store.get? scope name = some v) :
    v.FirstOrder := by
  obtain ⟨k, hk, hu⟩ := get?_eq_some hv
  exact firstOrder_iff.1 h k hk _ (Bindings.mem_of_get? hu)

end Store

/-! Runs. -/

namespace Run

variable {α β : Type} {scope : Scope} {post : α → Prop} {next : β → Prop} {run again : Run α}
  {f g : α → Run β} {result : Except Fault α} {a : α} {fault : Fault} {name : String} {v : Value}

def Settle (scope : Scope) (post : α → Prop) (run again : Run α) : Prop :=
  ∀ w, w.store.FirstOrder scope → ∃ r w', run w = some (r, w') ∧ again w = some (r, w') ∧
    w'.store.FirstOrder scope ∧ ∀ a, r = .ok a → post a

lemma settle_ofExcept (h : ∀ a, result = .ok a → post a) :
    Settle scope post (ofExcept result) (ofExcept result) :=
  fun w hw => ⟨result, w, rfl, rfl, hw, h⟩

lemma settle_fail : Settle scope post (fail fault) (fail fault) :=
  settle_ofExcept nofun

lemma settle_pure (h : post a) : Settle scope post (pure a) (pure a) := by
  refine fun w hw => ⟨.ok a, w, rfl, rfl, hw, ?_⟩
  rintro _ ⟨⟩
  exact h

lemma Settle.bind (h : Settle scope post run again)
    (hf : ∀ a, post a → Settle scope next (f a) (g a)) :
    Settle scope next (run >>= f) (again >>= g) := by
  intro w hw
  obtain ⟨r, w₁, hrun, hagain, hw₁, hr⟩ := h w hw
  cases r with
  | error fault => exact ⟨_, w₁, bind_of_error hrun, bind_of_error hagain, hw₁, nofun⟩
  | ok a =>
    rw [bind_of_ok hrun, bind_of_ok hagain]
    exact hf a (hr a rfl) w₁ hw₁

lemma Settle.within (h : Settle scope post run again) (form : Value) :
    Settle scope post (run.within form) (again.within form) := by
  intro w hw
  obtain ⟨r, w', hrun, hagain, hw', hr⟩ := h w hw
  refine ⟨r.mapError (Fault.within form), w', ?_, ?_, hw', fun a ha => ?_⟩
  · rw [Run.within, hrun]
    rfl
  · rw [Run.within, hagain]
    rfl
  · cases r with
    | error fault => cases ha
    | ok b => exact hr a ha

lemma settle_lookup :
    Settle scope Value.FirstOrder (lookup scope name) (lookup scope name) := by
  intro w hw
  refine ⟨_, w, rfl, rfl, hw, fun v hv => ?_⟩
  cases hget : w.store.get? scope name with
  | none =>
    rw [hget] at hv
    cases hv
  | some u =>
    rw [hget] at hv
    cases hv
    exact hw.get? hget

lemma settle_log (event : Event) :
    Settle scope (fun _ => True) (log event) (log event) :=
  fun _ hw => ⟨.ok (), _, rfl, rfl, hw, fun _ _ => trivial⟩

lemma settle_define (hv : v.FirstOrder) :
    Settle scope (fun _ => True) (Run.define scope name v) (Run.define scope name v) :=
  fun _ hw => ⟨.ok (), _, rfl, rfl, hw.bind hv, fun _ _ => trivial⟩

lemma settle_assign (hv : v.FirstOrder) :
    Settle scope Value.FirstOrder (Run.assign scope name v) (Run.assign scope name v) := by
  intro w hw
  rw [Run.assign]
  cases hstore : w.store.assign? scope name v with
  | none =>
    refine ⟨_, w, rfl, rfl, hw, ?_⟩
    rintro _ ⟨⟩
  | some store =>
    obtain ⟨index, -, rfl⟩ := Store.assign?_eq_some.1 hstore
    refine ⟨_, _, rfl, rfl, hw.bind hv, ?_⟩
    rintro _ ⟨⟩
    exact hv

lemma settle_call (f : LibraryFunction) {args : List Value} (hcount : f.arity.Accepts args.length)
    (hargs : ∀ v ∈ args, v.FirstOrder) :
    Settle scope Value.FirstOrder (f.call args) (f.call args) := by
  intro w hw
  obtain ⟨r, w', hrun, -⟩ := f.counted_call hcount w
  obtain ⟨hquiet, hr⟩ := f.call_gives Value.stable_flat hargs w r w' hrun
  exact ⟨r, w', hrun, hrun, hw.of_frames_eq hquiet.frames, hr⟩

end Run

lemma Arity.accepts_of_check {arity : Arity} {got : ℕ} {u : Unit} (h : arity.check got = .ok u) :
    arity.Accepts got := by
  rw [check] at h
  split at h
  · cases h
  · next hbroken => exact broken?_eq_none_iff.1 hbroken

/-! Rules. -/

namespace Eval

open Run

variable {go again : Performer} {host : Host} {scope : Scope} {form test yes operator : Value}
  {no : Option Value} {forms operands : List Value}

def Settled (go again : Performer) (scope : Scope) (form : Value) : Prop :=
  form.FirstOrder ∧
    Settle scope Value.FirstOrder (go (.eval form) scope) (again (.eval form) scope)

lemma settle_args (h : ∀ form ∈ forms, Settled go again scope form) :
    Settle scope (fun vs => vs.length = forms.length ∧ ∀ v ∈ vs, v.FirstOrder)
      (args go forms scope) (args again forms scope) := by
  induction forms with
  | nil => exact settle_pure ⟨rfl, fun _ hv => absurd hv List.not_mem_nil⟩
  | cons form forms ih =>
    obtain ⟨hform, hforms⟩ := List.forall_mem_cons.1 h
    rw [args, args, List.mapM_cons, List.mapM_cons]
    refine hform.2.bind fun v hv => (ih hforms).bind fun vs hvs => ?_
    exact settle_pure ⟨congrArg Nat.succ hvs.1, List.forall_mem_cons.2 ⟨hv, hvs.2⟩⟩

lemma settle_sequence (h : ∀ form ∈ forms, Settled go again scope form) :
    Settle scope Value.FirstOrder (sequence go forms scope) (sequence again forms scope) := by
  rw [sequence, sequence]
  have hlast := Value.firstOrder_unspecified
  generalize Value.unspecified = last at hlast ⊢
  induction forms generalizing last with
  | nil => exact settle_pure hlast
  | cons form forms ih =>
    obtain ⟨hform, hforms⟩ := List.forall_mem_cons.1 h
    exact hform.2.bind fun v hv => ih hforms v hv

lemma settle_target (f : CoreForm) {store : String → Value → Run Value}
    (h : ∀ form ∈ operands, Settled go again scope form)
    (hstore : ∀ name v, v.FirstOrder → Settle scope Value.FirstOrder (store name v) (store name v)) :
    Settle scope Value.FirstOrder (target go f operands scope store)
      (target again f operands scope store) := by
  unfold target
  split
  · exact (h _ (by simp)).2.bind (hstore _)
  · exact settle_fail
  · exact settle_fail

lemma settle_quote (h : ∀ form ∈ operands, Settled go again scope form) :
    Settle scope Value.FirstOrder (quote operands) (quote operands) := by
  unfold quote
  split
  · exact settle_pure (h _ (by simp)).1
  · exact settle_fail

lemma settle_core (f : CoreForm) (hf : f ≠ .lambda)
    (h : ∀ form ∈ operands, Settled go again scope form) :
    Settle scope Value.FirstOrder (core go f operands scope) (core again f operands scope) := by
  cases f with
  | define =>
    exact settle_target .define h fun name v hv => (settle_log _).bind fun _ _ =>
      (settle_define hv).bind fun _ _ => settle_pure hv
  | assign =>
    exact settle_target .assign h fun name v hv => (settle_log _).bind fun _ _ => settle_assign hv
  | lambda => exact absurd rfl hf
  | quote => exact settle_quote h

lemma settle_choose (htest : Settled go again scope test) (hyes : Settled go again scope yes)
    (hno : ∀ form ∈ no, Settled go again scope form) :
    Settle scope Value.FirstOrder (choose go test yes no scope) (choose again test yes no scope) := by
  refine htest.2.bind fun v _ => ?_
  split
  · exact settle_pure Value.firstOrder_unspecified
  · exact (hno _ rfl).2
  · exact hyes.2

lemma settle_control (f : ControlForm) (h : ∀ form ∈ operands, Settled go again scope form) :
    Settle scope Value.FirstOrder (control go f operands scope) (control again f operands scope) := by
  unfold control
  split
  · exact settle_choose (h _ (by simp)) (h _ (by simp)) nofun
  · refine settle_choose (h _ (by simp)) (h _ (by simp)) ?_
    rintro _ ⟨⟩
    exact h _ (by simp)
  · exact settle_fail
  · exact settle_sequence h

lemma settle_builtin (b : Builtin) (h : ∀ form ∈ operands, Settled go again scope form) :
    Settle scope Value.FirstOrder (builtin go b operands scope) (builtin again b operands scope) := by
  refine (settle_ofExcept fun _ => Arity.accepts_of_check).bind fun _ haccepts => ?_
  cases b with
  | form f => exact settle_control f h
  | function f =>
    refine (settle_args h).bind fun vs hvs => settle_call f ?_ hvs.2
    rw [hvs.1]
    exact haccepts

lemma settle_apply (hop : operator.FirstOrder)
    (h : ∀ form ∈ operands, Settled go again scope form) :
    Settle scope Value.FirstOrder (apply go host operator operands scope)
      (apply again host operator operands scope) := by
  unfold apply
  split
  · next f => exact settle_core f (fun hf => hop.here.2.2 (hf ▸ rfl)) h
  · exact settle_builtin _ h
  -- neither a host operation nor a closure is first-order
  · exact absurd trivial hop.here.1
  · exact absurd rfl hop.here.2.1
  · exact settle_fail

lemma settle_form (hform : form.FirstOrder)
    (h : ∀ v ∈ form.children, Settled go again scope v) :
    Settle scope Value.FirstOrder (Eval.form go host form scope)
      (Eval.form again host form scope) := by
  unfold Eval.form
  split
  · exact settle_lookup
  · next mark operator operands =>
    obtain ⟨hop, hoperands⟩ := List.forall_mem_cons.1 h
    exact hop.2.bind fun v hv => (settle_apply hv hoperands).within _
  · exact settle_pure hform

end Eval

lemma settle_perform (host : Host) {scope : Scope} {form : Value} {fuel more : ℕ}
    (hform : form.FirstOrder) (hfuel : form.depth < fuel) (hmore : form.depth < more) :
    Run.Settle scope Value.FirstOrder (perform host fuel (.eval form) scope)
      (perform host more (.eval form) scope) := by
  -- with both amounts one step down, each form inside this one is still less deep
  induction fuel generalizing form more with
  | zero => exact absurd hfuel (Nat.not_lt_zero _)
  | succ fuel ih =>
    obtain ⟨more, rfl⟩ := Nat.exists_eq_succ_of_ne_zero (Nat.ne_zero_of_lt hmore)
    refine Eval.settle_form hform fun v hv => ?_
    have hdepth := Value.depth_lt_of_mem_children hform.here.2.1 hv
    exact ⟨hform.child hv, ih (hform.child hv) (by omega) (by omega)⟩

/-- Evaluation of a form in a scope comes to an end if there are no closures in the form or in reach
of the scope, and no operation that makes them. It takes one more evaluation inside another than the
form is deep, and still there are no closures, in what it gives or in reach of the scope. -/
theorem eval_ends (host : Host) {form : Value} {scope : Scope} {w : World}
    (hform : form.FirstOrder) (hstore : w.store.FirstOrder scope) :
    ∃ r w', (∀ fuel, form.depth < fuel → eval host fuel form scope w = some (r, w')) ∧
      w'.store.FirstOrder scope ∧ ∀ v, r = .ok v → v.FirstOrder := by
  obtain ⟨r, w', heval, -, hstore', hr⟩ :=
    settle_perform host hform (Nat.lt_succ_self _) (Nat.lt_succ_self _) w hstore
  refine ⟨r, w', fun fuel hfuel => ?_, hstore', hr⟩
  obtain ⟨_, _, hagain, hmore, -⟩ :=
    settle_perform host hform (Nat.lt_succ_self _) hfuel w hstore
  cases heval.symm.trans hagain
  exact hmore

theorem eval_ends_define : ∃ r w',
    (∀ fuel, 2 < fuel →
      eval [] fuel (.ofList [.symbol "define", .symbol "x", .ofList [.symbol "list", .number 1]])
        ⟨0, []⟩ (World.start [("define", .operation (.core .define)),
          ("list", .operation (.builtin (.function .list)))]).2 = some (r, w')) ∧
      w'.store.FirstOrder ⟨0, []⟩ ∧ ∀ v, r = .ok v → v.FirstOrder := by
  have hform : (Value.ofList [.symbol "define", .symbol "x",
      .ofList [.symbol "list", .number 1]]).FirstOrder := by simp
  have hstore : (World.start [("define", .operation (.core .define)),
      ("list", .operation (.builtin (.function .list)))]).2.store.FirstOrder ⟨0, []⟩ := by
    rw [Store.firstOrder_iff]
    intro k hk entry he
    obtain rfl := List.mem_singleton.1 hk
    rcases List.mem_pair.1 he with rfl | rfl
    all_goals exact (Value.every_leaf rfl).2 ⟨id, nofun, nofun⟩
  exact eval_ends [] hform hstore

end Lisplet

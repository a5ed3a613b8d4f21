import Lisplet.Eval.Basic
import Lisplet.Proofs.Library.Results
import Lisplet.Proofs.Run
import Lisplet.Proofs.Store.Order
import Mathlib.Order.Basic

/-! Disciplines. A discipline says which worlds, scopes and values are in order, as far as is known at
some stage; what is known can grow. If each single step of evaluation keeps a discipline, then so
does everything that can be evaluated. -/

namespace Lisplet

namespace World

variable {w : World}

abbrev logged (w : World) (event : Event) : World :=
  { w with transcript := { w.transcript with events := w.transcript.events.push event } }

abbrev stored (w : World) (store : Store) : World :=
  { w with store := store }

abbrev marked (w : World) : World :=
  w.stored { w.store with marks := w.store.marks + 1 }

lemma quiet_logged (event : Event) : w.Quiet (w.logged event) :=
  ⟨rfl, le_rfl, #[event], rfl⟩

end World

namespace Eval

lemma params_eq_ok_iff_of_seen {seen names : List String} {items : List Value}
    (hseen : seen.Nodup) : params seen items = .ok names ↔
      ∃ new : List String, items = new.map .symbol ∧ names = seen.reverse ++ new ∧ names.Nodup := by
  induction items generalizing seen with
  | nil =>
    simp only [params, Except.ok.injEq, List.nil_eq, List.map_eq_nil_iff, exists_eq_left,
      List.append_nil]
    refine ⟨fun h => ⟨h.symm, ?_⟩, fun h => h.1.symm⟩
    rwa [← h, List.nodup_reverse]
  | cons v items ih =>
    cases v with
    | symbol name =>
      rw [params]
      split
      · next hmem =>
        refine iff_of_false nofun ?_
        rintro ⟨_ | ⟨other, new⟩, hitems, rfl, hnodup⟩
        · cases hitems
        · cases hitems
          have hdisjoint := List.disjoint_of_nodup_append hnodup
          exact hdisjoint (List.mem_reverse.2 (List.contains_iff_mem.1 hmem)) List.mem_cons_self
      · next hmem =>
        rw [ih (List.nodup_cons.2 ⟨fun h => hmem (List.contains_iff_mem.2 h), hseen⟩)]
        constructor
        · rintro ⟨new, rfl, rfl, hnodup⟩
          exact ⟨name :: new, rfl, by simp, hnodup⟩
        · rintro ⟨_ | ⟨other, new⟩, hitems, rfl, hnodup⟩
          · cases hitems
          · cases hitems
            exact ⟨new, rfl, by simp, hnodup⟩
    | _ =>
      refine iff_of_false nofun ?_
      rintro ⟨_ | ⟨other, new⟩, hitems, -⟩ <;> cases hitems

lemma params_eq_ok_iff {names : List String} {items : List Value} :
    params [] items = .ok names ↔ items = names.map .symbol ∧ names.Nodup := by
  simp [params_eq_ok_iff_of_seen]

end Eval

/-- `inner` are the scopes in which forms are evaluated, `outer` those that a closure may have
captured, and `part` holds of all parts of a value in order. -/
structure Discipline (ι : Type) [Preorder ι] where
  world : ι → World → Prop
  inner : ι → Scope → Prop
  outer : ι → Scope → Prop
  part : ι → Value → Prop
  inner_mono {i j : ι} {c : Scope} : i ≤ j → inner i c → inner j c
  part_mono {i j : ι} {v : Value} : i ≤ j → part i v → part j v
  outer_of_inner {i : ι} {c : Scope} : inner i c → outer i c
  outer_of_part {i : ι} {mark : ℕ} {params : List String} {body : List Value} {c : Scope} :
    part i (.function mark params body c) → outer i c
  stable (i : ι) : Value.Stable (part i)
  bound {i : ι} {w : World} {c : Scope} {k : ℕ} {name : String} {v : Value} :
    world i w → outer i c → k ∈ c.path → (name, v) ∈ w.store.frame k → v.Every (part i)
  quiet {i : ι} {w w' : World} : world i w → w.Quiet w' → world i w'
  define {i : ι} {w : World} {c : Scope} {name : String} {v : Value} : world i w → inner i c →
    v.Every (part i) →
    world i ((w.logged (.defined name v)).stored (w.store.define c name v))
  assign {i : ι} {w : World} {c : Scope} {name : String} {v : Value} {store : Store} :
    world i w → inner i c → v.Every (part i) → w.store.assign? c name v = some store →
    world i ((w.logged (.assigned name v)).stored store)
  extend {i : ι} {w : World} {c : Scope} {bindings : Bindings} : world i w → outer i c →
    (∀ entry ∈ bindings, entry.2.Every (part i)) → bindings.Ordered →
    ∃ j, i ≤ j ∧ world j (w.stored (w.store.extend (some c) bindings).2) ∧
      inner j (w.store.extend (some c) bindings).1
  close {i : ι} {w : World} {c : Scope} {params : List String} {body : List Value} : world i w →
    inner i c → params.Nodup → (∀ name ∈ params, part i (.symbol name)) →
    (∀ v ∈ body, v.Every (part i)) →
    ∃ j, i ≤ j ∧ world j w.marked ∧ part j (.function w.store.marks params body c)

structure Stage where

instance : Preorder Stage where
  le _ _ := True
  le_refl _ := trivial
  le_trans _ _ _ _ _ := trivial

namespace Discipline

variable {ι : Type} [Preorder ι] (D : Discipline ι) {α β : Type}

def value (i : ι) (v : Value) : Prop :=
  v.Every (D.part i)

def values (i : ι) (vs : List Value) : Prop :=
  ∀ v ∈ vs, D.value i v

def Keeps (i : ι) (post : ι → α → Prop) (run : Run α) : Prop :=
  ∀ w r w', D.world i w → run w = some (r, w') →
    ∃ j, i ≤ j ∧ D.world j w' ∧ ∀ a, r = .ok a → post j a

def task (i : ι) : Task → Prop
  | .eval form => D.value i form
  | .apply operator operands => D.value i operator ∧ D.values i operands

def Obeys (go : Performer) : Prop :=
  ∀ i task scope, D.task i task → D.inner i scope → D.Keeps i D.value (go task scope)

def Serves (i : ι) : Primitive → Prop
  | .function call => ∀ args, D.values i args → D.Keeps i D.value (call args)
  | .form apply => ∀ go, D.Obeys go → ∀ operands scope, D.values i operands →
      D.inner i scope → D.Keeps i D.value (apply go operands scope)

def Admits (host : Host) : Prop :=
  ∀ i name p, D.part i (.operation (.host name)) → host.lookup name = some p → D.Serves i p

variable {D} {i j : ι} {post : ι → α → Prop} {next : ι → β → Prop}

lemma value_mono {v : Value} (hij : i ≤ j) (h : D.value i v) : D.value j v :=
  h.imp fun _ => D.part_mono hij

lemma values_mono {vs : List Value} (hij : i ≤ j) (h : D.values i vs) : D.values j vs :=
  fun v hv => value_mono hij (h v hv)

/-! Runs. -/

lemma keeps_of_outcome {run : Run α} (h : ∀ w r w', D.world i w → run w = some (r, w') →
    D.world i w' ∧ ∀ a, r = .ok a → post i a) : D.Keeps i post run := by
  intro w r w' hw hrun
  exact ⟨i, le_rfl, h w r w' hw hrun⟩

lemma keeps_ofExcept {result : Except Fault α} (h : ∀ a, result = .ok a → post i a) :
    D.Keeps i post (Run.ofExcept result) := by
  refine keeps_of_outcome fun w r w' hw hrun => ?_
  cases hrun
  exact ⟨hw, h⟩

lemma keeps_fail {fault : Fault} : D.Keeps i post (Run.fail fault) :=
  keeps_ofExcept nofun

lemma keeps_pure {a : α} (h : post i a) : D.Keeps i post (pure a) := by
  refine keeps_of_outcome fun w r w' hw hrun => ?_
  cases hrun
  refine ⟨hw, ?_⟩
  rintro _ ⟨⟩
  exact h

lemma keeps_bind {run : Run α} {f : α → Run β} (hrun : D.Keeps i post run)
    (hf : ∀ j a, i ≤ j → post j a → D.Keeps j next (f a)) : D.Keeps i next (run >>= f) := by
  intro w r w' hw h
  rcases Run.bind_eq_some h with ⟨a, w₁, h₁, h₂⟩ | ⟨fault, h₁, rfl⟩
  · obtain ⟨j, hij, hw₁, ha⟩ := hrun w _ w₁ hw h₁
    obtain ⟨k, hjk, hw', hr⟩ := hf j a hij (ha a rfl) w₁ r w' hw₁ h₂
    exact ⟨k, hij.trans hjk, hw', hr⟩
  · obtain ⟨j, hij, hw', _⟩ := hrun w _ w' hw h₁
    exact ⟨j, hij, hw', nofun⟩

lemma keeps_within {run : Run α} {form : Value} (h : D.Keeps i post run) :
    D.Keeps i post (run.within form) := by
  intro w r w' hw hrun
  obtain ⟨⟨s, w₁⟩, hs, hrun⟩ := Option.map_eq_some_iff.1 hrun
  cases hrun
  obtain ⟨j, hij, hw', hr⟩ := h w s w₁ hw hs
  refine ⟨j, hij, hw', fun a ha => ?_⟩
  cases s with
  | error fault => cases ha
  | ok b => exact hr a ha

lemma keeps_of_gives {run : Run Value} (h : Run.Gives (D.part i) run) :
    D.Keeps i D.value run := by
  refine keeps_of_outcome fun w r w' hw hrun => ?_
  obtain ⟨hquiet, hr⟩ := h w r w' hrun
  exact ⟨D.quiet hw hquiet, hr⟩

/-! Rules. -/

variable {go : Performer} {host : Host} {scope : Scope} {forms : List Value}

lemma keeps_eval (hgo : D.Obeys go) {form : Value} (hform : D.value i form)
    (hscope : D.inner i scope) : D.Keeps i D.value (go (.eval form) scope) :=
  hgo i (.eval form) scope hform hscope

lemma keeps_args (hgo : D.Obeys go) (hforms : D.values i forms) (hscope : D.inner i scope) :
    D.Keeps i D.values (Eval.args go forms scope) := by
  induction forms generalizing i with
  | nil => exact keeps_pure fun _ hv => absurd hv List.not_mem_nil
  | cons form forms ih =>
    obtain ⟨hform, hforms⟩ := List.forall_mem_cons.1 hforms
    rw [Eval.args, List.mapM_cons]
    refine keeps_bind (keeps_eval hgo hform hscope) fun j v hij hv => ?_
    refine keeps_bind (ih (values_mono hij hforms) (D.inner_mono hij hscope)) fun k vs hjk hvs => ?_
    exact keeps_pure (List.forall_mem_cons.2 ⟨value_mono hjk hv, hvs⟩)

lemma keeps_foldlM (hgo : D.Obeys go) {last : Value} (hlast : D.value i last)
    (hforms : D.values i forms) (hscope : D.inner i scope) :
    D.Keeps i D.value (forms.foldlM (fun _ form => go (.eval form) scope) last) := by
  induction forms generalizing i last with
  | nil => exact keeps_pure hlast
  | cons form forms ih =>
    obtain ⟨hform, hforms⟩ := List.forall_mem_cons.1 hforms
    refine keeps_bind (keeps_eval hgo hform hscope) fun j v hij hv => ?_
    exact ih hv (values_mono hij hforms) (D.inner_mono hij hscope)

lemma value_plain {v : Value} (h : v.Plain) (hc : v.children = []) : D.value i v :=
  (Value.every_leaf hc).2 ((D.stable i).plain h)

lemma keeps_sequence (hgo : D.Obeys go) (hforms : D.values i forms) (hscope : D.inner i scope) :
    D.Keeps i D.value (Eval.sequence go forms scope) :=
  keeps_foldlM hgo (value_plain trivial rfl) hforms hscope

lemma keeps_enter (hgo : D.Obeys go) {names : List String} {body args : List Value}
    (hscope : D.outer i scope) (hbody : D.values i body) (hargs : D.values i args) :
    D.Keeps i D.value (Eval.enter go names body scope args) := by
  have hbindings : ∀ entry ∈ Bindings.ofList (names.zip args), D.value i entry.2 :=
    fun entry he => hargs entry.2 (List.of_mem_zip (Bindings.mem_ofList he)).2
  have hextend : D.Keeps i D.inner
      (Run.extend (some scope) (Bindings.ofList (names.zip args))) := by
    rintro w r w' hw ⟨⟩
    obtain ⟨j, hij, hw', hinner⟩ := D.extend hw hscope hbindings (Bindings.ordered_ofList _)
    refine ⟨j, hij, hw', ?_⟩
    rintro _ ⟨⟩
    exact hinner
  rw [Eval.enter]
  split
  · exact keeps_bind hextend fun j c hij hc => keeps_sequence hgo (values_mono hij hbody) hc
  · exact keeps_fail

lemma keeps_target (hgo : D.Obeys go) (f : CoreForm) {store : String → Value → Run Value}
    (hforms : D.values i forms) (hscope : D.inner i scope)
    (hstore : ∀ j name v, i ≤ j → D.value j v → D.Keeps j D.value (store name v)) :
    D.Keeps i D.value (Eval.target go f forms scope store) := by
  unfold Eval.target
  split
  · next name form =>
    have hform : D.value i form := hforms form (by simp)
    exact keeps_bind (keeps_eval hgo hform hscope) fun j => hstore j name
  · exact keeps_fail
  · exact keeps_fail

lemma keeps_define (hgo : D.Obeys go) (hforms : D.values i forms) (hscope : D.inner i scope) :
    D.Keeps i D.value (Eval.define go forms scope) := by
  refine keeps_target hgo .define hforms hscope fun j name v hij hv => ?_
  refine keeps_of_outcome fun w r w' hw hrun => ?_
  cases hrun
  refine ⟨D.define hw (D.inner_mono hij hscope) hv, ?_⟩
  rintro _ ⟨⟩
  exact hv

lemma keeps_assign (hgo : D.Obeys go) (hforms : D.values i forms) (hscope : D.inner i scope) :
    D.Keeps i D.value (Eval.assign go forms scope) := by
  refine keeps_target hgo .assign hforms hscope fun j name v hij hv => ?_
  refine keeps_of_outcome fun w r w' hw hrun => ?_
  -- the assignment is logged before it is known whether the name is bound
  change Run.assign scope name v (w.logged (.assigned name v)) = some (r, w') at hrun
  rw [Run.assign] at hrun
  split at hrun
  · next store hstore =>
    cases hrun
    refine ⟨D.assign hw (D.inner_mono hij hscope) hv hstore, ?_⟩
    rintro _ ⟨⟩
    exact hv
  · cases hrun
    exact ⟨D.quiet hw (World.quiet_logged _), nofun⟩

lemma keeps_lambda (hforms : D.values i forms) (hscope : D.inner i scope) :
    D.Keeps i D.value (Eval.lambda forms scope) := by
  unfold Eval.lambda
  split
  · exact keeps_fail
  · next mark items body =>
    obtain ⟨hitems, hbody⟩ := List.forall_mem_cons.1 hforms
    split
    · next names hnames =>
      obtain ⟨rfl, hnodup⟩ := Eval.params_eq_ok_iff.1 hnames
      have hparams : ∀ name ∈ names, D.part i (.symbol name) :=
        fun name hname => (hitems.child (List.mem_map_of_mem hname)).here
      rintro w r w' hw ⟨⟩
      obtain ⟨j, hij, hw', hpart⟩ := D.close hw hscope hnodup hparams hbody
      refine ⟨j, hij, hw', ?_⟩
      rintro _ ⟨⟩
      exact Value.every_iff.2 ⟨hpart, values_mono hij hbody⟩
    · exact keeps_fail
  · exact keeps_fail

lemma keeps_quote (hforms : D.values i forms) : D.Keeps i D.value (Eval.quote forms) := by
  unfold Eval.quote
  split
  · exact keeps_pure (hforms _ List.mem_cons_self)
  · exact keeps_fail

lemma keeps_core (hgo : D.Obeys go) (f : CoreForm) (hforms : D.values i forms)
    (hscope : D.inner i scope) : D.Keeps i D.value (Eval.core go f forms scope) := by
  cases f with
  | define => exact keeps_define hgo hforms hscope
  | assign => exact keeps_assign hgo hforms hscope
  | lambda => exact keeps_lambda hforms hscope
  | quote => exact keeps_quote hforms

lemma keeps_choose (hgo : D.Obeys go) {test yes : Value} {no : Option Value}
    (htest : D.value i test) (hyes : D.value i yes) (hno : ∀ v ∈ no, D.value i v)
    (hscope : D.inner i scope) : D.Keeps i D.value (Eval.choose go test yes no scope) := by
  refine keeps_bind (keeps_eval hgo htest hscope) fun j v hij _ => ?_
  have hscope := D.inner_mono hij hscope
  split
  · exact keeps_pure (value_plain trivial rfl)
  · exact keeps_eval hgo (value_mono hij (hno _ rfl)) hscope
  · exact keeps_eval hgo (value_mono hij hyes) hscope

lemma keeps_control (hgo : D.Obeys go) (f : ControlForm) (hforms : D.values i forms)
    (hscope : D.inner i scope) : D.Keeps i D.value (Eval.control go f forms scope) := by
  unfold Eval.control
  split
  · exact keeps_choose hgo (hforms _ (by simp)) (hforms _ (by simp)) nofun hscope
  · refine keeps_choose hgo (hforms _ (by simp)) (hforms _ (by simp)) ?_ hscope
    rintro _ ⟨⟩
    exact hforms _ (by simp)
  · exact keeps_fail
  · exact keeps_sequence hgo hforms hscope

lemma keeps_builtin (hgo : D.Obeys go) (b : Builtin) (hforms : D.values i forms)
    (hscope : D.inner i scope) : D.Keeps i D.value (Eval.builtin go b forms scope) := by
  have harity : D.Keeps i (fun _ _ => True) (Run.ofExcept (b.arity.check forms.length)) :=
    keeps_ofExcept fun _ _ => trivial
  refine keeps_bind harity fun j _ hij _ => ?_
  have hforms := values_mono hij hforms
  have hscope := D.inner_mono hij hscope
  cases b with
  | form f => exact keeps_control hgo f hforms hscope
  | function f =>
    refine keeps_bind (keeps_args hgo hforms hscope) fun k args _ hargs => ?_
    exact keeps_of_gives (f.call_gives (D.stable k) hargs)

lemma keeps_primitive (hgo : D.Obeys go) {p : Primitive} (hp : ∀ j, i ≤ j → D.Serves j p)
    (hforms : D.values i forms) (hscope : D.inner i scope) :
    D.Keeps i D.value (Eval.primitive go p forms scope) := by
  cases p with
  | function call => exact keeps_bind (keeps_args hgo hforms hscope) fun j args hij => hp j hij args
  | form apply => exact hp i le_rfl go hgo forms scope hforms hscope

lemma keeps_apply (hgo : D.Obeys go) (hhost : D.Admits host) {operator : Value}
    (hop : D.value i operator) (hforms : D.values i forms) (hscope : D.inner i scope) :
    D.Keeps i D.value (Eval.apply go host operator forms scope) := by
  unfold Eval.apply
  split
  · exact keeps_core hgo _ hforms hscope
  · exact keeps_builtin hgo _ hforms hscope
  · split
    · next p hp =>
      refine keeps_primitive hgo (fun j hij => ?_) hforms hscope
      exact hhost j _ p (D.part_mono hij hop.here) hp
    · exact keeps_fail
  · next mark names body captured =>
    refine keeps_bind (keeps_args hgo hforms hscope) fun j args hij hargs => ?_
    have hop := value_mono hij hop
    exact keeps_enter hgo (D.outer_of_part hop.here) (fun _ => hop.child) hargs
  · exact keeps_fail

lemma keeps_lookup (hscope : D.inner i scope) (name : String) :
    D.Keeps i D.value (Run.lookup scope name) := by
  refine keeps_of_outcome fun w r w' hw hrun => ?_
  cases hrun
  refine ⟨hw, fun v hv => ?_⟩
  cases hget : w.store.get? scope name with
  | none =>
    rw [hget] at hv
    cases hv
  | some u =>
    rw [hget] at hv
    cases hv
    obtain ⟨k, hk, hu⟩ := Store.get?_eq_some hget
    exact D.bound hw (D.outer_of_inner hscope) hk (Bindings.mem_of_get? hu)

lemma keeps_form (hgo : D.Obeys go) (hhost : D.Admits host) {form : Value}
    (hform : D.value i form) (hscope : D.inner i scope) :
    D.Keeps i D.value (Eval.form go host form scope) := by
  unfold Eval.form
  split
  · exact keeps_lookup hscope _
  · next operator operands =>
    obtain ⟨hop, hoperands⟩ := List.forall_mem_cons.1 fun v hv => hform.child (w := v) hv
    refine keeps_bind (keeps_eval hgo hop hscope) fun j v hij hv => ?_
    exact keeps_within
      (keeps_apply hgo hhost hv (values_mono hij hoperands) (D.inner_mono hij hscope))
  · exact keeps_pure hform

theorem obeys_perform (hhost : D.Admits host) (fuel : ℕ) : D.Obeys (perform host fuel) := by
  induction fuel with
  | zero => exact fun _ _ _ _ _ _ _ _ _ h => nomatch h
  | succ fuel ih =>
    intro i task scope htask hscope
    cases task with
    | eval form => exact keeps_form ih hhost htask hscope
    | apply operator operands => exact keeps_apply ih hhost htask.1 htask.2 hscope

end Discipline

end Lisplet

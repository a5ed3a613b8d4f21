import Lisplet.Proofs.Eval.Scoping
import Lisplet.Proofs.Program.Execution
import Mathlib.Logic.Relation

/-! A host at work: it makes scopes, binds values, registers operations of its own and has forms
evaluated and programs executed. Its operations do the like while a form is evaluated. -/

namespace Lisplet

structure Snapshot where
  world : World
  scopes : List Scope
  values : List Value

namespace Snapshot

def empty : Snapshot := ⟨.empty, [], []⟩

def stored (s : Snapshot) (store : Store) : Snapshot :=
  { s with world := s.world.stored store }

def extend (s : Snapshot) (outer : Option Scope) (bindings : Bindings) : Snapshot :=
  ⟨s.world.stored (s.world.store.extend outer bindings).2,
    (s.world.store.extend outer bindings).1 :: s.scopes, s.values⟩

def after (s : Snapshot) (r : Except Fault Value) (w : World) : Snapshot :=
  ⟨w, s.scopes, r.toOption.toList ++ s.values⟩

def Present (s : Snapshot) (u : Value) : Prop :=
  ∃ v, (v ∈ s.values ∨ ∃ k name, (name, v) ∈ s.world.store.frame k) ∧ Value.Part u v

/-- A host can put the value together. It cannot make closures of its own, and it can only give
scopes to an operation that it has hold of. -/
def Makes (owns : String → List Scope) (s : Snapshot) (v : Value) : Prop :=
  v.Every fun u => s.Present u ∨ u.kind ≠ .function ∧ ∀ c ∈ u.scopes owns, c ∈ s.scopes

def MakesTask (owns : String → List Scope) (s : Snapshot) : Task → Prop
  | .eval form => s.Makes owns form
  | .apply operator operands => s.Makes owns operator ∧ ∀ v ∈ operands, s.Makes owns v

inductive Step (owns : String → List Scope) (go : Performer) : Snapshot → Snapshot → Prop
  | quiet {s : Snapshot} {w : World} : s.world.Quiet w → Step owns go s { s with world := w }
  | root {s : Snapshot} {bindings : Bindings} : bindings ∈ [[], Bindings.core, Bindings.global] →
      Step owns go s (s.extend none bindings)
  | child {s : Snapshot} {c : Scope} : c ∈ s.scopes → Step owns go s (s.extend (some c) [])
  | parent {s : Snapshot} {c p : Scope} : c ∈ s.scopes → c.parent? = some p →
      Step owns go s { s with scopes := p :: s.scopes }
  | define {s : Snapshot} {c : Scope} {name : String} {v : Value} : c ∈ s.scopes →
      s.Makes owns v → Step owns go s (s.stored (s.world.store.define c name v))
  | assign {s : Snapshot} {c : Scope} {name : String} {v : Value} {store : Store} : c ∈ s.scopes →
      s.Makes owns v → s.world.store.assign? c name v = some store →
      Step owns go s (s.stored store)
  | register {s : Snapshot} {c : Scope} {name op : String} : c ∈ s.scopes →
      (∀ d ∈ owns op, d ∈ s.scopes) →
      Step owns go s (s.stored (s.world.store.define c name (.operation (.host op))))
  | perform {s : Snapshot} {c : Scope} {task : Task} {r : Except Fault Value} {w : World} :
      c ∈ s.scopes → s.MakesTask owns task → go task c s.world = some (r, w) →
      Step owns go s (s.after r w)

abbrev Steps (owns : String → List Scope) (go : Performer) : Snapshot → Snapshot → Prop :=
  Relation.ReflTransGen (Step owns go)

end Snapshot

/-- What an operation does is what a host can do with the scopes that the operation owns, with its
arguments and, for a form, with the scope in which it is applied. -/
def Primitive.Honest (owns : String → List Scope) (owned : List Scope) : Primitive → Prop
  | .function call => ∀ args w r w', call args w = some (r, w') →
      ∃ s, Snapshot.Steps owns (fun _ _ => Run.outOfFuel) ⟨w, owned, args⟩ s ∧ s.world = w' ∧
        ∀ v, r = .ok v → s.Makes owns v
  | .form apply => ∀ go operands scope w r w', apply go operands scope w = some (r, w') →
      ∃ s, Snapshot.Steps owns go ⟨w, scope :: owned, operands⟩ s ∧ s.world = w' ∧
        ∀ v, r = .ok v → s.Makes owns v

def Host.Honest (owns : String → List Scope) (host : Host) : Prop :=
  ∀ name p, host.lookup name = some p → p.Honest owns (owns name)

inductive Snapshot.Move (owns : String → List Scope) (host : Host) : Snapshot → Snapshot → Prop
  | step {s s' : Snapshot} {fuel : ℕ} : Step owns (perform host fuel) s s' → Move owns host s s'
  | execute {s : Snapshot} {c : Scope} {fuel : ℕ} {options : Reader.Options}
      {label : Option String} {source : String} {program : Program} {r : Except Fault Value}
      {w : World} : c ∈ s.scopes → Program.ofSource options label source = .ok program →
      program.execute host fuel c s.world = some (r, w) → Move owns host s (s.after r w)

abbrev Snapshot.Moves (owns : String → List Scope) (host : Host) : Snapshot → Snapshot → Prop :=
  Relation.ReflTransGen (Move owns host)

namespace Discipline

variable {ι : Type} [Preorder ι] {D : Discipline ι} {i j : ι} {owns : String → List Scope}
  {s s' : Snapshot} {v : Value} {go : Performer} {host : Host}

/-- The discipline asks nothing of a host but to use the scopes and closures that there are. -/
structure Open (D : Discipline ι) (owns : String → List Scope) : Prop where
  store {i : ι} {w w' : World} : D.world i w → w'.store = w.store → D.world i w'
  values {i : ι} {w : World} {k : ℕ} {name : String} {v : Value} :
    D.world i w → (name, v) ∈ w.store.frame k → D.value i v
  root {i : ι} {w : World} {bindings : Bindings} : D.world i w →
    (∀ entry ∈ bindings, D.value i entry.2) → bindings.Ordered →
    ∃ j, i ≤ j ∧ D.world j (w.stored (w.store.extend none bindings).2) ∧
      D.inner j (w.store.extend none bindings).1
  parent {i : ι} {w : World} {c p : Scope} : D.world i w → D.inner i c → c.parent? = some p →
    D.inner i p
  part {i : ι} {v : Value} : v.kind ≠ .function → (∀ c ∈ v.scopes owns, D.inner i c) → D.part i v
  owned {i : ι} {name : String} : D.part i (.operation (.host name)) →
    ∀ c ∈ owns name, D.inner i c

structure InOrder (D : Discipline ι) (i : ι) (s : Snapshot) : Prop where
  world : D.world i s.world
  scopes : ∀ c ∈ s.scopes, D.inner i c
  values : D.values i s.values

lemma InOrder.present (hD : D.Open owns) (h : D.InOrder i s) {u : Value} (hu : s.Present u) :
    D.value i u := by
  obtain ⟨v, hv | ⟨k, name, hv⟩, hpart⟩ := hu
  · exact (h.values v hv).part hpart
  · exact (hD.values h.world hv).part hpart

lemma InOrder.makes (hD : D.Open owns) (h : D.InOrder i s) (hv : s.Makes owns v) :
    D.value i v := by
  intro u hu
  rcases hv u hu with hpresent | ⟨hkind, hscopes⟩
  · exact (h.present hD hpresent).here
  · exact hD.part hkind fun c hc => h.scopes c (hscopes c hc)

lemma InOrder.makesTask (hD : D.Open owns) (h : D.InOrder i s) {task : Task}
    (ht : s.MakesTask owns task) : D.task i task := by
  cases task with
  | eval form => exact h.makes hD ht
  | apply operator operands => exact ⟨h.makes hD ht.1, fun v hv => h.makes hD (ht.2 v hv)⟩

lemma Open.ground (hD : D.Open owns) (h : v.Ground) : D.value i v := by
  refine h.imp fun u ⟨hhost, hkind⟩ => hD.part hkind fun c hc => ?_
  cases u with
  | operation op => cases op with
    | host => exact absurd trivial hhost
    | _ => exact absurd hc List.not_mem_nil
  | function => exact absurd rfl hkind
  | _ => exact absurd hc List.not_mem_nil

lemma InOrder.stored (hD : D.Open owns) (h : D.InOrder i s) {w : World} {store : Store}
    (hw : D.world i w) (hstore : w.store = store) : D.InOrder i (s.stored store) :=
  ⟨hD.store hw hstore.symm, h.scopes, h.values⟩

lemma InOrder.mono (h : D.InOrder i s) (hij : i ≤ j) {w : World} (hw : D.world j w) :
    D.InOrder j { s with world := w } :=
  ⟨hw, fun c hc => D.inner_mono hij (h.scopes c hc), values_mono hij h.values⟩

lemma InOrder.extend (h : D.InOrder i s) (hij : i ≤ j) {outer : Option Scope}
    {bindings : Bindings} (hw : D.world j (s.world.stored (s.world.store.extend outer bindings).2))
    (hc : D.inner j (s.world.store.extend outer bindings).1) :
    D.InOrder j (s.extend outer bindings) :=
  ⟨hw, List.forall_mem_cons.2 ⟨hc, (h.mono hij hw).scopes⟩, values_mono hij h.values⟩

lemma InOrder.define (hD : D.Open owns) (h : D.InOrder i s) {c : Scope} {name : String}
    (hc : c ∈ s.scopes) (hv : D.value i v) :
    D.InOrder i (s.stored (s.world.store.define c name v)) :=
  h.stored hD (D.define h.world (h.scopes c hc) hv) rfl

lemma InOrder.after (h : D.InOrder i s) {run : Run Value} (hrun : D.Keeps i D.value run)
    {r : Except Fault Value} {w : World} (hr : run s.world = some (r, w)) :
    ∃ j, i ≤ j ∧ D.InOrder j (s.after r w) := by
  obtain ⟨j, hij, hw, hv⟩ := hrun _ _ _ h.world hr
  refine ⟨j, hij, hw, (h.mono hij hw).scopes, fun v hmem => ?_⟩
  rcases List.mem_append.1 hmem with hnew | hold
  · cases r with
    | error => exact absurd hnew List.not_mem_nil
    | ok u => exact List.mem_singleton.1 hnew ▸ hv u rfl
  · exact value_mono hij (h.values v hold)

lemma InOrder.step (hD : D.Open owns) (hgo : D.Obeys go) (h : D.InOrder i s)
    (hstep : Snapshot.Step owns go s s') : ∃ j, i ≤ j ∧ D.InOrder j s' := by
  cases hstep with
  | quiet hquiet => exact ⟨i, le_rfl, h.mono le_rfl (D.quiet h.world hquiet)⟩
  | root hbindings =>
    obtain ⟨j, hij, hw, hc⟩ := hD.root h.world
      (fun entry he => hD.ground (Bindings.ground_start hbindings he))
      (Bindings.ordered_start hbindings)
    exact ⟨j, hij, h.extend hij hw hc⟩
  | child hc =>
    obtain ⟨j, hij, hw, hnew⟩ := D.extend h.world (D.outer_of_inner (h.scopes _ hc))
      (fun _ he => absurd he List.not_mem_nil) Bindings.ordered_nil
    exact ⟨j, hij, h.extend hij hw hnew⟩
  | parent hc hp =>
    refine ⟨i, le_rfl, h.world, List.forall_mem_cons.2 ⟨?_, h.scopes⟩, h.values⟩
    exact hD.parent h.world (h.scopes _ hc) hp
  | define hc hv => exact ⟨i, le_rfl, h.define hD hc (h.makes hD hv)⟩
  | assign hc hv hstore =>
    exact ⟨i, le_rfl, h.stored hD (D.assign h.world (h.scopes _ hc) (h.makes hD hv) hstore) rfl⟩
  | register hc howns =>
    refine ⟨i, le_rfl, h.define hD hc ((Value.every_leaf rfl).2 ?_)⟩
    exact hD.part nofun fun d hd => h.scopes d (howns d hd)
  | perform hc ht hr =>
    exact h.after (hgo i _ _ (h.makesTask hD ht) (h.scopes _ hc)) hr

lemma InOrder.steps (hD : D.Open owns) (hgo : D.Obeys go) (h : D.InOrder i s)
    (hsteps : Snapshot.Steps owns go s s') : ∃ j, i ≤ j ∧ D.InOrder j s' := by
  induction hsteps with
  | refl => exact ⟨i, le_rfl, h⟩
  | tail _ hstep ih =>
    obtain ⟨j, hij, hj⟩ := ih
    obtain ⟨k, hjk, hk⟩ := hj.step hD hgo hstep
    exact ⟨k, hij.trans hjk, hk⟩

lemma obeys_outOfFuel : D.Obeys fun _ _ => Run.outOfFuel := by
  rintro i task scope _ _ w r w' _ ⟨⟩

lemma Open.admits (hD : D.Open owns) (hhost : host.Honest owns) : D.Admits host := by
  intro i name p hpart hp
  have howned := hD.owned hpart
  have hhonest := hhost name p hp
  cases p with
  | function call =>
    intro args hargs w r w' hw hrun
    obtain ⟨s, hsteps, rfl, hmakes⟩ := hhonest args w r w' hrun
    have hstart : D.InOrder i ⟨w, owns name, args⟩ := ⟨hw, howned, hargs⟩
    obtain ⟨j, hij, hs⟩ := hstart.steps hD obeys_outOfFuel hsteps
    exact ⟨j, hij, hs.world, fun v hv => hs.makes hD (hmakes v hv)⟩
  | form apply =>
    intro go hgo operands scope hoperands hscope w r w' hw hrun
    obtain ⟨s, hsteps, rfl, hmakes⟩ := hhonest go operands scope w r w' hrun
    have hstart : D.InOrder i ⟨w, scope :: owns name, operands⟩ :=
      ⟨hw, List.forall_mem_cons.2 ⟨hscope, howned⟩, hoperands⟩
    obtain ⟨j, hij, hs⟩ := hstart.steps hD hgo hsteps
    exact ⟨j, hij, hs.world, fun v hv => hs.makes hD (hmakes v hv)⟩

lemma InOrder.move (hD : D.Open owns) (hhost : host.Honest owns) (h : D.InOrder i s)
    (hmove : Snapshot.Move owns host s s') : ∃ j, i ≤ j ∧ D.InOrder j s' := by
  have hadmits := hD.admits hhost
  cases hmove with
  | step hstep => exact h.step hD (obeys_perform hadmits _) hstep
  | @execute c _ _ _ _ program _ _ hc hsource hr =>
    have hforms : D.values i program.forms :=
      fun form hform => hD.ground (Program.ground_forms hsource form hform)
    exact h.after (keeps_execute hadmits hforms (h.scopes c hc)) hr

theorem InOrder.moves (hD : D.Open owns) (hhost : host.Honest owns) (h : D.InOrder i s)
    (hmoves : Snapshot.Moves owns host s s') : ∃ j, i ≤ j ∧ D.InOrder j s' := by
  induction hmoves with
  | refl => exact ⟨i, le_rfl, h⟩
  | tail _ hmove ih =>
    obtain ⟨j, hij, hj⟩ := ih
    obtain ⟨k, hjk, hk⟩ := hj.move hD hhost hmove
    exact ⟨k, hij.trans hjk, hk⟩

end Discipline

end Lisplet

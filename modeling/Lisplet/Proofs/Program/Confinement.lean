import Lisplet.Proofs.Program.Execution
import Mathlib.Data.List.Infix

/-! What evaluation can get at. A frame that cannot be reached from the scope and the form at hand,
by way of outer frames and captured scopes, is not changed and does not come within reach. -/

namespace Lisplet

namespace Scope

variable {c p : Scope}

lemma path_injective (h : p.path = c.path) : p = c := by
  cases p
  cases c
  obtain ⟨rfl, rfl⟩ := List.cons.inj h
  rfl

lemma path_of_parent? (h : c.parent? = some p) : c.path = c.frame :: p.path := by
  obtain ⟨frame, _ | ⟨around, outer⟩⟩ := c
  · cases h
  · cases h
    rfl

end Scope

namespace Store

inductive Reach (store : Store) (roots : Scope → Prop) : Scope → Prop
  | root {c : Scope} : roots c → Reach store roots c
  | parent {c p : Scope} : Reach store roots c → c.parent? = some p → Reach store roots p
  | captured {c d : Scope} {name : String} {v : Value} : Reach store roots c →
      (name, v) ∈ store.frame c.frame → v.Captures d → Reach store roots d

def Within (store : Store) (roots : Scope → Prop) (c : Scope) : Prop :=
  ∀ p : Scope, p.path <:+ c.path → p.frame < store.frames.size → store.Reach roots p

def Open (store : Store) (roots : Scope → Prop) (k : ℕ) : Prop :=
  k < store.frames.size → ∃ c, store.Reach roots c ∧ c.frame = k

def Tame (store : Store) (roots : Scope → Prop) (v : Value) : Prop :=
  ¬ v.IsHost ∧ ∀ c ∈ v.scopes fun _ => [], store.Within roots c

variable {store : Store} {roots : Scope → Prop} {c p : Scope} {k : ℕ} {v : Value}

lemma Reach.within (h : store.Reach roots c) : store.Within roots c := by
  intro p hp _
  obtain ⟨frame, outer⟩ := c
  induction outer generalizing frame with
  | nil =>
    rcases List.suffix_cons_iff.1 hp with heq | hnil
    · obtain rfl := Scope.path_injective heq
      exact h
    · cases List.suffix_nil.1 hnil
  | cons around outer ih =>
    rcases List.suffix_cons_iff.1 hp with heq | hp
    · obtain rfl := Scope.path_injective heq
      exact h
    · exact ih around (h.parent rfl) hp

lemma Within.parent (h : store.Within roots c) (hp : c.parent? = some p) :
    store.Within roots p := by
  intro q hq
  rw [Within, Scope.path_of_parent? hp] at h
  exact h q (hq.trans (List.suffix_cons _ _))

lemma Within.isOpen (h : store.Within roots c) (hk : k ∈ c.path) : store.Open roots k := by
  obtain ⟨before, outer, hpath⟩ := List.append_of_mem hk
  exact fun hlt => ⟨⟨k, outer⟩, h ⟨k, outer⟩ ⟨before, hpath.symm⟩ hlt, rfl⟩

lemma Within.extend (h : store.Within roots c) (hk : store.frames.size ≤ k) :
    store.Within roots ⟨k, c.path⟩ := by
  intro p hp hlt
  rcases List.suffix_cons_iff.1 hp with heq | hp
  -- the new frame was not in the store, so nothing is asked of it
  · obtain rfl := Scope.path_injective (c := ⟨k, c.path⟩) heq
    exact absurd hlt (Nat.not_lt.2 hk)
  · exact h p hp hlt

end Store

/-- Nothing out of reach has changed since some world, and what is in reach holds no host operation
and leads to nothing else. -/
structure Shut (roots : Scope → Prop) (w₀ w : World) : Prop where
  size : w₀.store.frames.size ≤ w.store.frames.size
  unchanged : ∀ k, ¬ w₀.store.Open roots k → w.store.frame k = w₀.store.frame k
  values : ∀ k, w₀.store.Open roots k → ∀ entry ∈ w.store.frame k,
    entry.2.Every (w₀.store.Tame roots)

namespace Shut

variable {roots : Scope → Prop} {w₀ w w' : World} {index : ℕ} {name : String} {v : Value}
  {c : Scope} {bindings : Bindings}

lemma of_frames_eq (h : Shut roots w₀ w) (heq : w'.store.frames = w.store.frames) :
    Shut roots w₀ w' where
  size := heq ▸ h.size
  unchanged k hk := by
    rw [Store.frame, heq]
    exact h.unchanged k hk
  values k hk entry he := by
    rw [Store.frame, heq] at he
    exact h.values k hk entry he

lemma bind (h : Shut roots w₀ w) (hindex : w₀.store.Open roots index)
    (hv : v.Every (w₀.store.Tame roots)) (heq : w'.store = w.store.bind index name v) :
    Shut roots w₀ w' where
  size := by
    rw [heq, Store.size_bind]
    exact h.size
  unchanged k hk := by
    rw [heq, Store.frame_bind_of_ne, h.unchanged k hk]
    rintro rfl
    exact hk hindex
  values k hk entry he := by
    rw [heq] at he
    rcases Store.mem_frame_bind he with ⟨rfl, rfl⟩ | hold
    · exact hv
    · exact h.values k hk entry hold

lemma extend (h : Shut roots w₀ w)
    (hnew : ∀ entry ∈ bindings, entry.2.Every (w₀.store.Tame roots)) :
    Shut roots w₀ (w.stored (w.store.extend (some c) bindings).2) where
  size := by
    rw [Store.size_extend]
    exact h.size.trans (Nat.le_succ _)
  unchanged k hk := by
    have hlt : k < w₀.store.frames.size := by
      by_contra hle
      exact hk fun hlt => absurd hlt hle
    rw [Store.frame_extend_of_ne (hlt.trans_le h.size).ne, h.unchanged k hk]
  values k hk entry he := by
    rcases Store.mem_frame_extend (some c) he with ⟨hentry, -⟩ | hold
    · exact hnew entry hentry
    · exact h.values k hk entry hold

end Shut

def confinement (roots : Scope → Prop) (w₀ : World) : Discipline Stage where
  world _ w := Shut roots w₀ w
  inner _ c := w₀.store.Within roots c
  outer _ c := w₀.store.Within roots c
  part _ v := w₀.store.Tame roots v
  inner_mono _ h := h
  part_mono _ h := h
  outer_of_inner h := h
  outer_of_part h := h.2 _ (List.mem_singleton_self _)
  stable _ := Value.Stable.and ⟨Value.not_isHost_of_plain, fun _ => id, fun _ => id⟩
    Value.stable_scopes
  bound hw hc hk hv := hw.values _ (hc.isOpen hk) _ hv
  quiet hw hquiet := hw.of_frames_eq hquiet.frames
  define hw hc hv := hw.bind (hc.isOpen List.mem_cons_self) hv rfl
  assign hw hc hv hstore := by
    obtain ⟨index, hindex, rfl⟩ := Store.assign?_eq_some.1 hstore
    exact hw.bind (hc.isOpen (Store.holder?_eq_some hindex).1) hv rfl
  extend hw hc hbindings _ := ⟨⟨⟩, le_rfl, hw.extend hbindings, hc.extend hw.size⟩
  close hw hc _ _ _ := by
    refine ⟨⟨⟩, le_rfl, hw.of_frames_eq rfl, id, fun d hd => ?_⟩
    obtain rfl := List.mem_singleton.1 hd
    exact hc

structure Confined (roots : Scope → Prop) (w : World) (r : Except Fault Value)
    (w' : World) : Prop where
  unchanged : ∀ k < w.store.frames.size, (∀ c, w.store.Reach roots c → c.frame ≠ k) →
    w'.store.frame k = w.store.frame k
  reach : ∀ c, w'.store.Reach
      (fun d => (∃ v, r = .ok v ∧ v.Captures d) ∨ w.store.Reach roots d) c →
    c.frame < w.store.frames.size → w.store.Reach roots c

namespace Confined

variable {roots : Scope → Prop} {w w' : World} {r : Except Fault Value} {scope : Scope}
  {host : Host} {fuel : ℕ}

def Safe (roots : Scope → Prop) (store : Store) : Prop :=
  ∀ c, store.Reach roots c → ∀ entry ∈ store.frame c.frame, entry.2.Standard

lemma shut_start (h : Safe roots w.store) : Shut roots w w where
  size := le_rfl
  unchanged _ _ := rfl
  values k hk entry he := by
    obtain ⟨c, hc, rfl⟩ := hk (Store.lt_of_mem_frame he)
    have hcaptures : ∀ d, entry.2.Captures d → w.store.Within roots d :=
      fun d hd => (hc.captured he hd).within
    exact (h c hc entry he).and (Value.every_scopes hcaptures)

lemma of_shut (h : Shut roots w w') (hr : ∀ v, r = .ok v → v.Every (w.store.Tame roots)) :
    Confined roots w r w' where
  unchanged k hlt hk := by
    refine h.unchanged k fun hopen => ?_
    obtain ⟨c, hc, hframe⟩ := hopen hlt
    exact hk c hc hframe
  reach c hc hlt := by
    -- the way may go through new frames; the old ones around each of them were in reach before
    have hwithin : w.store.Within roots c := by
      clear hlt
      induction hc with
      | root hroot =>
        rcases hroot with ⟨v, hv, hd⟩ | hd
        · exact Value.forall_captures ((hr v hv).imp fun _ hu => hu.2) _ hd
        · exact hd.within
      | parent _ hp ih => exact ih.parent hp
      | captured _ hv hd ih =>
        have htame := h.values _ (ih.isOpen List.mem_cons_self) _ hv
        exact Value.forall_captures (htame.imp fun _ hu => hu.2) _ hd
    exact hwithin c List.suffix_rfl hlt

lemma of_keeps {run : Run Value} (h : Safe roots w.store)
    (hkeeps : (confinement roots w).Keeps ⟨⟩ (confinement roots w).value run)
    (hrun : run w = some (r, w')) : Confined roots w r w' := by
  obtain ⟨_, _, hw', hr⟩ := hkeeps w r w' (shut_start h) hrun
  exact of_shut hw' hr

lemma admits (roots : Scope → Prop) (w : World) (host : Host) : (confinement roots w).Admits host :=
  Discipline.admits_of_not_isHost host fun _ _ h => h.1

lemma inner_of_root {c : Scope} (h : roots c) : (confinement roots w).inner ⟨⟩ c :=
  (Store.Reach.root h).within

lemma unrelated {c : Scope} (h : Confined roots w r w')
    (hc : ∀ k ∈ c.path, k < w.store.frames.size ∧ ∀ d, w.store.Reach roots d → d.frame ≠ k) :
    (∀ name, w'.store.get? c name = w.store.get? c name) ∧
      w'.store.visible c = w.store.visible c := by
  have hframes : ∀ k ∈ c.path, w'.store.frame k = w.store.frame k :=
    fun k hk => h.unchanged k (hc k hk).1 (hc k hk).2
  exact ⟨Store.get?_congr hframes, Store.visible_congr hframes⟩

end Confined

/-- Evaluating a form in a scope does not get at frames that cannot be reached from the two, and
executing a program in a scope does not get at scopes that cannot be reached from it. -/
theorem confined (host : Host) (fuel : ℕ) (scope : Scope) (w : World) :
    (∀ form r w', form.Standard →
      Confined.Safe (fun c => c = scope ∨ form.Captures c) w.store →
      eval host fuel form scope w = some (r, w') →
      Confined (fun c => c = scope ∨ form.Captures c) w r w') ∧
    ∀ options label source program r w', Program.ofSource options label source = .ok program →
      Confined.Safe (· = scope) w.store → program.execute host fuel scope w = some (r, w') →
      Confined (· = scope) w r w' ∧
        ∀ c, (∀ k ∈ c.path, k < w.store.frames.size ∧
            ∀ d, w.store.Reach (· = scope) d → d.frame ≠ k) →
          (∀ name, w'.store.get? c name = w.store.get? c name) ∧
            w'.store.visible c = w.store.visible c := by
  constructor
  · intro form r w' hform hsafe hrun
    have hvalue : (confinement (fun c => c = scope ∨ form.Captures c) w).value ⟨⟩ form :=
      hform.and (Value.every_scopes fun c hc => (Store.Reach.root (.inr hc)).within)
    exact .of_keeps hsafe (Discipline.obeys_perform (Confined.admits _ w host) fuel ⟨⟩
      (.eval form) scope hvalue (Confined.inner_of_root (.inl rfl))) hrun
  · intro options label source program r w' hsource hsafe hrun
    have hforms : (confinement (· = scope) w).values ⟨⟩ program.forms := by
      intro form hform
      have hground := Program.ground_forms hsource form hform
      exact hground.standard.and
        (Value.every_scopes fun c hc => absurd hc hground.not_captures)
    have hconfined : Confined (· = scope) w r w' := .of_keeps hsafe
      (Discipline.keeps_execute (Confined.admits _ w host) hforms (Confined.inner_of_root rfl)) hrun
    exact ⟨hconfined, fun c hc => hconfined.unrelated hc⟩

def World.withBystander : World :=
  (World.start .global).2.stored
    ((World.start .global).2.store.extend none [("x", .number 7)]).2

lemma Store.Reach.eq_of_ground {store : Store} {roots : Scope → Prop} {c : Scope}
    (h : store.Reach roots c) (hroots : ∀ d, roots d → d = ⟨0, []⟩)
    (hground : ∀ entry ∈ store.frame 0, entry.2.Ground) : c = ⟨0, []⟩ := by
  induction h with
  | root hc => exact hroots _ hc
  | parent _ hp ih =>
    subst ih
    cases hp
  | captured _ hv hd ih =>
    subst ih
    exact absurd hd (hground _ hv).not_captures

theorem confined_beside : ∃ program u v w₁ w₂,
    eval [] 2 (.ofList [.symbol "define", .symbol "x", .number 1]) ⟨0, []⟩ .withBystander =
        some (.ok u, w₁) ∧
      w₁.store.frame 1 = World.withBystander.store.frame 1 ∧
      Program.ofSource Reader.defaultOptions none "(define x 1)" = .ok program ∧
      program.execute [] 2 ⟨0, []⟩ .withBystander = some (.ok v, w₂) ∧
      w₂.store.get? ⟨1, []⟩ "x" = World.withBystander.store.get? ⟨1, []⟩ "x" := by
  have hdefine : ((eval [] 2 (.ofList [.symbol "define", .symbol "x", .number 1]) ⟨0, []⟩
      .withBystander).map fun result => result.1.isOk) = some true := by decide +kernel
  obtain ⟨program, hsource, hprogram⟩ : ∃ program,
      Program.ofSource Reader.defaultOptions none "(define x 1)" = .ok program ∧
        ((program.execute [] 2 ⟨0, []⟩ .withBystander).map fun result => result.1.isOk) =
          some true := ⟨_, rfl, by decide +kernel⟩
  obtain ⟨u, w₁, heval⟩ := Run.exists_of_isOk hdefine
  obtain ⟨v, w₂, hexecute⟩ := Run.exists_of_isOk hprogram
  have hground : ∀ entry ∈ World.withBystander.store.frame 0, entry.2.Ground :=
    fun _ he => Bindings.ground_global he
  have hform : (Value.ofList [.symbol "define", .symbol "x", .number 1]).Ground := by simp
  have hroots (d : Scope) (hd : d = ⟨0, []⟩ ∨ (Value.ofList [.symbol "define", .symbol "x",
      .number 1]).Captures d) : d = ⟨0, []⟩ :=
    hd.resolve_right hform.not_captures
  have hsafe {roots : Scope → Prop} (h : ∀ d, roots d → d = ⟨0, []⟩) :
      Confined.Safe roots World.withBystander.store := by
    intro c hc entry he
    obtain rfl := hc.eq_of_ground h hground
    exact (hground entry he).standard
  have hbeside {roots : Scope → Prop} (h : ∀ d, roots d → d = ⟨0, []⟩) (c : Scope)
      (hc : World.withBystander.store.Reach roots c) : c.frame ≠ 1 := by
    obtain rfl := hc.eq_of_ground h hground
    exact Nat.zero_ne_one
  refine ⟨program, u, v, w₁, w₂, heval, ?_, hsource, hexecute, ?_⟩
  · exact ((confined [] 2 ⟨0, []⟩ .withBystander).1 _ _ _ hform.standard (hsafe hroots)
      heval).unchanged 1 (by decide +kernel) (hbeside hroots)
  · refine (((confined [] 2 ⟨0, []⟩ .withBystander).2 _ _ _ _ _ _ hsource (hsafe fun _ => id)
      hexecute).2 ⟨1, []⟩ ?_).1 "x"
    exact List.forall_mem_singleton.2 ⟨by decide +kernel, hbeside fun _ => id⟩

end Lisplet

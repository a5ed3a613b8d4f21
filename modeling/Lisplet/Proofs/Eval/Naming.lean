import Lisplet.Proofs.Eval.Scoping
import Lisplet.Proofs.Eval.Standard

/-! Which names evaluation binds in the frames that are already there. Only the frame of the scope
in which a form is evaluated can get new names, and other values change by assignment alone. The
names of a frame stay in order. -/

namespace Lisplet

structure FramesKept (own : ℕ → Prop) (w w' : World) : Prop where
  size : w.store.frames.size ≤ w'.store.frames.size
  names : ∀ k name, (w.store.frame k).contains name → (w'.store.frame k).contains name
  noNames : ∀ k name, k < w.store.frames.size → ¬ own k → (w'.store.frame k).contains name →
    (w.store.frame k).contains name
  values : ∃ events, w'.transcript.events = w.transcript.events ++ events ∧
    ∀ k name v, k < w.store.frames.size → (w'.store.frame k).get? name = some v →
      (w.store.frame k).get? name = some v ∨ .assigned name v ∈ events ∨
        own k ∧ .defined name v ∈ events

namespace FramesKept

variable {own : ℕ → Prop} {w₀ w w' : World} {c : Scope} {name : String} {v : Value} {event : Event}
  {index : ℕ}

lemma refl : FramesKept own w w where
  size := le_rfl
  names _ _ h := h
  noNames _ _ _ _ h := h
  values := ⟨#[], Array.append_empty.symm, fun _ _ _ _ h => .inl h⟩

lemma of_frame_eq (h : FramesKept own w₀ w)
    (hsize : w.store.frames.size ≤ w'.store.frames.size)
    (hframe : ∀ k < w.store.frames.size, w'.store.frame k = w.store.frame k)
    (hevents : ∃ events, w'.transcript.events = w.transcript.events ++ events) :
    FramesKept own w₀ w' where
  size := h.size.trans hsize
  names k name hname := by
    have hcontains := h.names k name hname
    rwa [hframe k (Store.lt_of_contains hcontains)]
  noNames k name hk hown hname := by
    rw [hframe k (hk.trans_le h.size)] at hname
    exact h.noNames k name hk hown hname
  values := by
    obtain ⟨events, he, hvalues⟩ := h.values
    obtain ⟨events', he'⟩ := hevents
    refine ⟨events ++ events', by rw [he', he, Array.append_assoc], fun k name v hk hv => ?_⟩
    rw [hframe k (hk.trans_le h.size)] at hv
    exact (hvalues k name v hk hv).imp_right (Or.imp (Array.mem_append_left _)
      (And.imp_right (Array.mem_append_left _)))

lemma bind (h : FramesKept own w₀ w) (hindex : index < w₀.store.frames.size →
      event = .assigned name v ∧ (w.store.frame index).contains name ∨
        event = .defined name v ∧ own index) :
    FramesKept own w₀ ((w.logged event).stored (w.store.bind index name v)) where
  size := h.size.trans_eq Store.size_bind.symm
  names k other hother := by
    have hcontains := h.names k other hother
    rcases Store.frame_bind_cases w.store index k name v with heq | ⟨-, heq⟩
    · rwa [heq]
    · rw [heq]
      exact Bindings.contains_insert.2 (.inr hcontains)
  noNames k other hk hown hother := by
    -- outside `own` a value is bound by assignment, to a name that the frame has already
    rcases Store.frame_bind_cases w.store index k name v with heq | ⟨rfl, heq⟩
    · exact h.noNames k other hk hown (heq ▸ hother)
    · rw [heq] at hother
      rcases Bindings.contains_insert.1 hother with rfl | hold
      · rcases hindex hk with ⟨-, hcontains⟩ | ⟨-, hk'⟩
        · exact h.noNames k other hk hown hcontains
        · exact absurd hk' hown
      · exact h.noNames k other hk hown hold
  values := by
    obtain ⟨events, he, hvalues⟩ := h.values
    refine ⟨events.push event, by rw [Array.append_push, ← he], fun k other u hk hu => ?_⟩
    have hold (hu : (w.store.frame k).get? other = some u) := (hvalues k other u hk hu).imp_right
      (Or.imp (Array.mem_push_of_mem event) (And.imp_right (Array.mem_push_of_mem event)))
    rcases Store.frame_bind_cases w.store index k name v with heq | ⟨rfl, heq⟩
    · exact hold (heq ▸ hu)
    · rw [heq, Bindings.get?_insert] at hu
      split at hu
      · next hname =>
        cases hu
        subst hname
        rcases hindex hk with ⟨rfl, -⟩ | ⟨rfl, hown⟩
        · exact .inr (.inl Array.mem_push_self)
        · exact .inr (.inr ⟨hown, Array.mem_push_self⟩)
      · exact hold hu

lemma resolvable (h : FramesKept own w w') (hget : (w.store.get? c name).isSome) :
    (w'.store.get? c name).isSome := by
  obtain ⟨k, hk, hname⟩ := Store.isSome_get?.1 hget
  exact Store.isSome_get?.2 ⟨k, hk, h.names k name hname⟩

end FramesKept

def naming (own : ℕ → Prop) (w₀ : World) : Discipline Stage where
  world _ w := FramesKept own w₀ w
  inner _ c := c.frame < w₀.store.frames.size → own c.frame
  outer _ _ := True
  part _ _ := True
  inner_mono _ h := h
  part_mono _ h := h
  outer_of_inner _ := trivial
  outer_of_part _ := trivial
  stable _ := ⟨fun _ => trivial, fun _ => trivial, fun _ => trivial⟩
  bound _ _ _ _ _ _ := trivial
  quiet hw hquiet := hw.of_frame_eq (by rw [hquiet.frames])
    (fun _ _ => by rw [Store.frame, hquiet.frames, Store.frame]) hquiet.events
  define hw hc _ := hw.bind fun hlt => .inr ⟨rfl, hc hlt⟩
  assign hw _ _ hstore := by
    obtain ⟨index, hindex, rfl⟩ := Store.assign?_eq_some.1 hstore
    exact hw.bind fun _ => .inl ⟨rfl, (Store.holder?_eq_some hindex).2⟩
  extend {_ w c bindings} hw _ _ _ := by
    refine ⟨⟨⟩, le_rfl, hw.of_frame_eq ?_ ?_ ⟨#[], Array.append_empty.symm⟩, ?_⟩
    · rw [Store.size_extend]
      exact Nat.le_succ _
    · intro k hk
      rw [Store.frame_extend_of_ne hk.ne]
    · exact fun hlt => absurd (hw.size.trans_lt hlt) (Nat.lt_irrefl _)
  close hw _ _ _ _ :=
    ⟨⟨⟩, le_rfl, hw.of_frame_eq le_rfl (fun _ _ => rfl) ⟨#[], Array.append_empty.symm⟩, trivial⟩

def ordering : Discipline Stage where
  world _ w := w.store.Ordered
  inner _ _ := True
  outer _ _ := True
  part _ _ := True
  inner_mono _ h := h
  part_mono _ h := h
  outer_of_inner h := h
  outer_of_part _ := trivial
  stable _ := ⟨fun _ => trivial, fun _ => trivial, fun _ => trivial⟩
  bound _ _ _ _ _ _ := trivial
  quiet hw hquiet := hw.of_frames_eq hquiet.frames
  define hw _ _ := hw.bind
  assign hw _ _ hstore := hw.assign? hstore
  extend {_ _ c _} hw _ _ hbindings := ⟨⟨⟩, le_rfl, hw.extend (some c) hbindings, trivial⟩
  close hw _ _ _ _ := ⟨⟨⟩, le_rfl, hw, trivial⟩

namespace Lineage

variable {l : Lineage} {own : ℕ → Prop} {w w' : World} {v : Value} {r : Except Fault Value}

def Governs (l : Lineage) (v : Value) : Prop :=
  v.Standard ∧ ∀ c, v.Captures c → l.Has c

structure Describes (l : Lineage) (store : Store) : Prop extends l.Fits store where
  values : store.All fun _ v => l.Governs v

/-- What evaluation does to a well-formed store: the frames that are there keep the frames around
them, and what can be looked up in a scope stays so. -/
structure Evolves (l : Lineage) (own : ℕ → Prop) (w : World) (r : Except Fault Value)
    (w' : World) : Prop where
  lineage : ∃ l', l ≤ l' ∧ l'.Describes w'.store ∧ ∀ v, r = .ok v → l'.Governs v
  frames : FramesKept own w w'
  resolvable : ∀ c name, (w.store.get? c name).isSome → (w'.store.get? c name).isSome

def watching (own : ℕ → Prop) (w₀ : World) : Discipline ((Lineage × Stage) × Stage) :=
  ((scoping fun _ => []).prod (naming own w₀)).prod .standard

lemma watching_value : (watching own w).value ((l, ⟨⟩), ⟨⟩) v ↔ l.Governs v := by
  constructor
  · intro h
    exact ⟨h.imp fun _ hu => hu.2, Value.forall_captures (h.imp fun _ hu => hu.1.1)⟩
  · rintro ⟨hstandard, hscopes⟩
    exact ((Value.every_scopes hscopes).and fun _ _ => trivial).and hstandard

lemma watching_start (hw : l.Describes w.store) : (watching own w).world ((l, ⟨⟩), ⟨⟩) w := by
  refine ⟨⟨⟨hw.toFits, fun k entry he => Value.every_scopes (hw.values k entry he).2⟩, .refl⟩, ?_⟩
  exact fun k entry he => (hw.values k entry he).1

lemma evolves_of_watching {run : Run Value} (hw : l.Describes w.store)
    (hkeeps : (watching own w).Keeps ((l, ⟨⟩), ⟨⟩) (watching own w).value run)
    (hrun : run w = some (r, w')) : l.Evolves own w r w' := by
  obtain ⟨⟨⟨l', _⟩, _⟩, hl, ⟨⟨⟨hfits, hcovers⟩, hframes⟩, hstandard⟩, hr⟩ :=
    hkeeps w r w' (watching_start hw) hrun
  refine ⟨⟨l', hl.1.1, ⟨hfits, fun k entry he => ?_⟩, ?_⟩, hframes, fun _ _ => hframes.resolvable⟩
  · exact ⟨hstandard k entry he, Value.forall_captures (hcovers k entry he)⟩
  · exact fun v hv => watching_value.1 (hr v hv)

/-- Evaluating a form in a scope binds new names in no older frame but that of the scope; calling a
closure binds none in any. -/
theorem evolves (host : Host) (fuel : ℕ) (hw : l.Describes w.store) :
    (∀ form scope r w', l.Governs form → l.Has scope → eval host fuel form scope w = some (r, w') →
      l.Evolves (· = scope.frame) w r w') ∧
    ∀ mark params body captured args r w', l.Governs (.function mark params body captured) →
      (∀ v ∈ args, l.Governs v) →
      Eval.enter (perform host fuel) params body captured args w = some (r, w') →
      l.Evolves (fun _ => False) w r w' := by
  have hobeys (own : ℕ → Prop) : (watching own w).Obeys (perform host fuel) :=
    Discipline.obeys_perform (Discipline.admits_prod_standard host) fuel
  constructor
  · intro form scope r w' hform hscope hrun
    have hinner : (watching (· = scope.frame) w).inner ((l, ⟨⟩), ⟨⟩) scope :=
      ⟨⟨hscope, fun _ => rfl⟩, trivial⟩
    have hkeeps := hobeys _ ((l, ⟨⟩), ⟨⟩) (.eval form) scope (watching_value.2 hform) hinner
    exact evolves_of_watching hw hkeeps hrun
  · intro mark params body captured args r w' hclosure hargs hrun
    have houter : (watching (fun _ => False) w).outer ((l, ⟨⟩), ⟨⟩) captured :=
      ⟨⟨hclosure.2 captured ⟨mark, params, body, .self _⟩, trivial⟩, trivial⟩
    have hbody : ∀ v ∈ body, (watching (fun _ => False) w).value ((l, ⟨⟩), ⟨⟩) v :=
      fun v hv => (watching_value.2 hclosure).child hv
    have hvalues : ∀ v ∈ args, (watching (fun _ => False) w).value ((l, ⟨⟩), ⟨⟩) v :=
      fun v hv => watching_value.2 (hargs v hv)
    exact evolves_of_watching hw (Discipline.keeps_enter (hobeys _) houter hbody hvalues) hrun

def single : Lineage :=
  Ledger.empty.enter 0 []

lemma governs_of_ground (h : v.Ground) : l.Governs v :=
  ⟨h.standard, fun _ hc => absurd hc h.not_captures⟩

lemma governs_function {mark : ℕ} {params : List String} {body : List Value} {c : Scope}
    (hc : l.Has c) (hbody : ∀ v ∈ body, l.Governs v) :
    l.Governs (.function mark params body c) := by
  refine ⟨Value.every_function.2 ⟨id, fun v hv => (hbody v hv).1⟩, ?_⟩
  rintro d ⟨mark', params', body', hf⟩
  cases hf with
  | self => exact hc
  | child hv hf => exact (hbody _ hv).2 d ⟨mark', params', body', hf⟩

lemma describes_start : single.Describes (World.start .global).2.store where
  toFits := fits_empty.root
  values := World.start_all fun _ he => governs_of_ground (Bindings.ground_global he)

theorem evolves_start : ∃ u v w₁ w₂,
    eval [] 2 (.ofList [.symbol "define", .symbol "x", .number 1]) ⟨0, []⟩
        (World.start .global).2 = some (.ok u, w₁) ∧
      single.Evolves (· = 0) (World.start .global).2 (.ok u) w₁ ∧
      Eval.enter (perform [] 2) ["y"] [.ofList [.symbol "define", .symbol "z", .symbol "y"]] ⟨0, []⟩
        [.number 2] (World.start .global).2 = some (.ok v, w₂) ∧
      single.Evolves (fun _ => False) (World.start .global).2 (.ok v) w₂ := by
  have hdefine : ((eval [] 2 (.ofList [.symbol "define", .symbol "x", .number 1]) ⟨0, []⟩
      (World.start .global).2).map fun result => result.1.isOk) = some true := by decide +kernel
  have hcall : ((Eval.enter (perform [] 2) ["y"]
      [.ofList [.symbol "define", .symbol "z", .symbol "y"]] ⟨0, []⟩ [.number 2]
      (World.start .global).2).map fun result => result.1.isOk) = some true := by decide +kernel
  obtain ⟨u, w₁, heval⟩ := Run.exists_of_isOk hdefine
  obtain ⟨v, w₂, henter⟩ := Run.exists_of_isOk hcall
  have hhas : single.Has ⟨0, []⟩ := Ledger.get?_enter_self
  have hbody : ∀ form ∈ [Value.ofList [.symbol "define", .symbol "z", .symbol "y"]],
      single.Governs form := List.forall_mem_singleton.2 (governs_of_ground (by simp))
  refine ⟨u, v, w₁, w₂, heval, ?_, henter, ?_⟩
  · exact (evolves [] 2 describes_start).1 _ ⟨0, []⟩ _ _ (governs_of_ground (by simp)) hhas heval
  · exact (evolves [] 2 describes_start).2 0 _ _ _ _ _ _ (governs_function hhas hbody)
      (List.forall_mem_singleton.2 (governs_of_ground (by simp))) henter

end Lineage

end Lisplet

import Lisplet.Proofs.Program.Hosting
import Lisplet.Toolkit

/-! The graph of frames and closures. Whatever a host does, scopes lead outwards over older and older
frames, and no closure or scope ever comes to mean another one. -/

namespace Lisplet

variable {owns : String → List Scope} {host : Host} {s s' : Snapshot}

lemma open_scoping (owns : String → List Scope) : (scoping owns).Open owns where
  store hw heq := ⟨heq ▸ hw.1, heq ▸ hw.2⟩
  values hw hv := hw.2 _ _ hv
  root hw hbindings _ := ⟨_, hw.1.le_extend,
    ⟨hw.1.root, Lineage.all_covers_extend hw.1 hw.2 hbindings⟩, Lineage.has_extend⟩
  parent hw hc hp := (hw.1.parent _ _ hc hp).1
  part _ h := h
  owned h := h

lemma open_identity (owns : String → List Scope) : identity.Open owns where
  store hw heq := ⟨heq ▸ hw.1, heq ▸ hw.2⟩
  values hw hv := hw.2 _ _ hv
  root hw hbindings _ := ⟨_, le_rfl, ⟨hw.1, hw.2.extend none hbindings⟩, trivial⟩
  parent _ _ _ := trivial
  part hkind _ := Closures.agrees_of_kind_ne hkind
  owned _ _ _ := trivial

namespace Snapshot

inductive Mentions (s : Snapshot) : Scope → Prop
  | held {c : Scope} : c ∈ s.scopes → Mentions s c
  | captured {mark : ℕ} {params : List String} {body : List Value} {c : Scope} :
      s.Present (.function mark params body c) → Mentions s c
  | parent {c p : Scope} : Mentions s c → c.parent? = some p → Mentions s p

lemma Mentions.has {l : Lineage} {c : Scope} (h : (scoping owns).InOrder l s) (hc : s.Mentions c) :
    l.Has c := by
  induction hc with
  | held hc => exact h.scopes _ hc
  | captured hf => exact (h.present (open_scoping owns) hf).here _ (List.mem_singleton_self _)
  | parent _ hp ih => exact (h.world.1.parent _ _ ih hp).1

lemma Present.closure {k : Closures} {mark : ℕ} {params : List String} {body : List Value}
    {c : Scope} (h : identity.InOrder k s) (hf : s.Present (.function mark params body c)) :
    k.get? mark = some (params, body, c) :=
  (h.present (open_identity fun _ => []) hf).here

lemma inOrder_scoping : (scoping owns).InOrder .empty .empty where
  world := ⟨Lineage.fits_empty, Store.all_empty⟩
  scopes _ hc := absurd hc List.not_mem_nil
  values _ hv := absurd hv List.not_mem_nil

lemma inOrder_identity : identity.InOrder .empty .empty where
  world := ⟨fun _ _ => rfl, Store.all_empty⟩
  scopes _ hc := absurd hc List.not_mem_nil
  values _ hv := absurd hv List.not_mem_nil

/-- Whatever a host has done: from each scope the way outwards goes over frames that are there, and
each is older than the last. Later on, the same frame is inside the same frames, and the same
closure has captured the same scope. -/
theorem Moves.wellFormed (hhost : host.Honest owns) (hs : Moves owns host .empty s) :
    (∀ c, s.Mentions c → c.path.Pairwise (· > ·) ∧
      c.path.length ≤ s.world.store.frames.size ∧
      ∀ k ∈ c.path, ∃ bindings, s.world.store.frames[k]? = some bindings) ∧
    ∀ s', Moves owns host s s' →
      (∀ c c', s.Mentions c → s'.Mentions c' → c.frame = c'.frame → c = c') ∧
      ∀ mark params body c params' body' c', s.Present (.function mark params body c) →
        s'.Present (.function mark params' body' c') → params = params' ∧ body = body' ∧ c = c' := by
  obtain ⟨l, -, hl⟩ := inOrder_scoping.moves (open_scoping owns) hhost hs
  obtain ⟨k, -, hk⟩ := inOrder_identity.moves (open_identity owns) hhost hs
  constructor
  · intro c hc
    have hhas := hc.has hl
    obtain ⟨hsorted, hbound⟩ := hl.world.1.path hhas
    refine ⟨hsorted, hl.world.1.length_path_le hhas, fun index hindex => ?_⟩
    exact ⟨_, Array.getElem?_eq_getElem (hbound index hindex)⟩
  · intro s' hmoves
    obtain ⟨l', hll', hl'⟩ := hl.moves (open_scoping owns) hhost hmoves
    obtain ⟨k', hkk', hk'⟩ := hk.moves (open_identity owns) hhost hmoves
    constructor
    · rintro ⟨frame, outer⟩ ⟨_, outer'⟩ hc hc' rfl
      have houter : outer = outer' := Ledger.eq_of_le hll' (hc.has hl) (hc'.has hl')
      rw [houter]
    · intro mark params body c params' body' c' hf hf'
      simpa using Ledger.eq_of_le hkk' (hf.closure hk) (hf'.closure hk')

/-! An honest operation, and a host that has it. -/

lemma makes_of_mem {v : Value} (h : v ∈ s.values) : s.Makes owns v :=
  fun _ hu => .inl ⟨v, .inl h, hu⟩

lemma steps_sequence {go : Performer} {c : Scope} {forms : List Value} {last : Value}
    {r : Except Fault Value} {w : World} (hc : c ∈ s.scopes) (hforms : ∀ v ∈ forms, v ∈ s.values)
    (hlast : s.Makes owns last)
    (hrun : forms.foldlM (fun _ form => go (.eval form) c) last s.world = some (r, w)) :
    ∃ s', Steps owns go s s' ∧ s'.world = w ∧ ∀ v, r = .ok v → s'.Makes owns v := by
  induction forms generalizing s last with
  | nil =>
    cases hrun
    refine ⟨s, .refl, rfl, ?_⟩
    rintro _ ⟨⟩
    exact hlast
  | cons form forms ih =>
    obtain ⟨hform, hforms⟩ := List.forall_mem_cons.1 hforms
    have htask : s.MakesTask owns (.eval form) := makes_of_mem hform
    rcases Run.bind_eq_some hrun with ⟨v, w₁, hv, hrest⟩ | ⟨fault, hfault, rfl⟩
    · have hnext : v ∈ (s.after (.ok v) w₁).values := List.mem_cons_self
      obtain ⟨s', hsteps, hw, hr⟩ := ih (s := s.after (.ok v) w₁) hc
        (fun u hu => List.mem_cons_of_mem v (hforms u hu)) (makes_of_mem hnext) hrest
      exact ⟨s', .head (.perform hc htask hv) hsteps, hw, hr⟩
    · exact ⟨s.after (.error fault) w, .single (.perform hc htask hfault), rfl, nofun⟩

lemma honest_evalLocally (owned : List Scope) :
    (Primitive.form Toolkit.evalLocally).Honest owns owned := by
  intro go operands scope w r w' hrun
  have hunspecified : Makes owns (Snapshot.extend ⟨w, scope :: owned, operands⟩ (some scope) [])
      .unspecified := (Value.every_leaf rfl).2 (.inr ⟨nofun, fun _ hc => absurd hc List.not_mem_nil⟩)
  obtain ⟨s, hsteps, hs⟩ := steps_sequence (c := (w.store.extend (some scope) []).1)
    List.mem_cons_self (fun _ => id) hunspecified hrun
  exact ⟨s, .head (.child List.mem_cons_self) hsteps, hs⟩

def localHost : Host :=
  [("s-local", .form Toolkit.evalLocally)]

lemma honest_localHost : localHost.Honest fun _ => [] := by
  intro name p hp
  rw [localHost, List.lookup_cons] at hp
  split at hp
  · cases hp
    exact honest_evalLocally _
  · cases hp

lemma exists_of_scopes {v : Value} {c : Scope} (h : v.scopes (fun _ => []) = [c]) :
    ∃ mark params body, v = .function mark params body c := by
  cases v with
  | function mark params body d =>
    cases h
    exact ⟨mark, params, body, rfl⟩
  | operation op => cases op <;> cases h
  | _ => cases h

theorem Moves.wellFormed_localHost : ∃ s, Moves (fun _ => []) localHost .empty s ∧
    s.Mentions ⟨1, [0]⟩ ∧ ∀ k ∈ [1, 0], ∃ bindings, s.world.store.frames[k]? = some bindings := by
  let s₁ := Snapshot.empty.extend none .global
  let s₂ := s₁.stored (s₁.world.store.define ⟨0, []⟩ "s-local" (.operation (.host "s-local")))
  obtain ⟨program, hsource, hprogram⟩ : ∃ program,
      Program.ofSource Reader.defaultOptions none "(s-local (lambda (x) x))" = .ok program ∧
        ((program.execute localHost 3 ⟨0, []⟩ s₂.world).bind fun result =>
          result.1.toOption.map (Value.scopes fun _ => [])) = some [⟨1, [0]⟩] :=
    ⟨_, rfl, by decide +kernel⟩
  obtain ⟨⟨_ | v, w⟩, hrun, hscopes⟩ := Option.bind_eq_some_iff.1 hprogram
  · cases hscopes
  · obtain ⟨mark, params, body, rfl⟩ := exists_of_scopes (Option.some.inj hscopes)
    have hroot : Step (fun _ => []) (perform localHost 0) .empty s₁ := .root (by simp)
    have hregister : Step (fun _ => []) (perform localHost 0) s₁ s₂ :=
      .register List.mem_cons_self fun _ hd => absurd hd List.not_mem_nil
    have hmoves : Moves (fun _ => []) localHost .empty _ :=
      ((Relation.ReflTransGen.single (.step hroot)).tail (.step hregister)).tail
        (.execute List.mem_cons_self hsource hrun)
    have hmentions : (s₂.after (.ok (.function mark params body ⟨1, [0]⟩)) w).Mentions ⟨1, [0]⟩ :=
      .captured ⟨_, .inl List.mem_cons_self, .self _⟩
    exact ⟨_, hmoves, hmentions, ((wellFormed honest_localHost hmoves).1 _ hmentions).2.2⟩

end Snapshot

end Lisplet

import Lisplet.Proofs.Eval.Naming
import Lisplet.Proofs.Program.Hosting
import Lisplet.Proofs.Store.Lookup
import Lisplet.Proofs.Text.Bytes

/-! The names that are visible from a scope. Whatever a host has done, the list of them says the
same as looking up each name, and does not depend on how a frame keeps its names. -/

namespace Lisplet

variable {owns : String → List Scope} {host : Host} {s : Snapshot}

lemma open_ordering (owns : String → List Scope) : ordering.Open owns where
  store hw heq := hw.of_frames_eq (congrArg Store.frames heq)
  values _ _ _ _ := trivial
  root hw _ hbindings := ⟨⟨⟩, le_rfl, hw.extend none hbindings, trivial⟩
  parent _ _ _ := trivial
  part _ _ := trivial
  owned _ _ _ := trivial

namespace Snapshot

lemma Moves.ordered (hhost : host.Honest owns) (hs : Moves owns host .empty s) :
    s.world.store.Ordered := by
  have hstart : ordering.InOrder ⟨⟩ .empty :=
    ⟨Store.ordered_empty, fun _ _ => trivial, fun _ _ _ _ => trivial⟩
  obtain ⟨i, -, hi⟩ := hstart.moves (open_ordering owns) hhost hs
  exact hi.world

/-- The names that are listed are strictly increasing in their bytes, each with the value that a
lookup finds, which is the one in the nearest frame that binds the name. A store whose frames keep
the same names in another order lists the same. -/
theorem Moves.visible_lookup (hhost : host.Honest owns) (hs : Moves owns host .empty s)
    (c : Scope) :
    (s.world.store.visible c).names.Pairwise (fun a b => Text.bytes a < Text.bytes b) ∧
    (∀ name v, (name, v) ∈ s.world.store.visible c ↔ s.world.store.get? c name = some v) ∧
    (∀ name p, s.world.store.Finds name c p →
      ∃ v, (s.world.store.frame p.frame).get? name = some v ∧
        ∀ u, (name, u) ∈ s.world.store.visible c ↔ u = v) ∧
    ∀ store : Store, (∀ k, (s.world.store.frame k).Perm (store.frame k)) →
      store.visible c = s.world.store.visible c := by
  have hordered : s.world.store.Ordered := hs.ordered hhost
  refine ⟨?_, fun name v => Store.mem_visible_iff hordered, fun name p hfinds => ?_,
    fun store hperm => ?_⟩
  · exact (s.world.store.ordered_visible c).imp Text.bytes_lt_iff.2
  · obtain ⟨v, hv⟩ := Option.isSome_iff_exists.1 hfinds.binds
    refine ⟨v, hv, fun u => ?_⟩
    rw [Store.mem_visible_iff hordered, hfinds.reaches.get?_eq, Store.get?_here hfinds.binds, hv,
      Option.some_inj, eq_comm]
  · exact Store.visible_perm hordered hperm

theorem Moves.visible_lookup_shadowed : ∃ (s : Snapshot) (store : Store),
    Moves (fun _ => []) [] .empty s ∧
    s.world.store.visible ⟨1, [0]⟩ = [("a", .number 2), ("b", .number 3)] ∧
    s.world.store.get? ⟨1, [0]⟩ "b" = some (.number 3) ∧
    store.frame 0 = [("b", .number 1), ("a", .number 2)] ∧
    store.visible ⟨1, [0]⟩ = [("a", .number 2), ("b", .number 3)] := by
  let c : Scope := ⟨0, []⟩
  let s₁ := Snapshot.empty.extend none []
  let s₂ := s₁.stored (s₁.world.store.define c "b" (.number 1))
  let s₃ := s₂.stored (s₂.world.store.define c "a" (.number 2))
  let s₄ := s₃.extend (some c) []
  let s := s₄.stored (s₄.world.store.define ⟨1, [0]⟩ "b" (.number 3))
  let store : Store := ⟨#[[("b", .number 1), ("a", .number 2)], [("b", .number 3)]], 0⟩
  have hmakes (t : Snapshot) (n : Int64) : t.Makes (fun _ => []) (.number n) :=
    (Value.every_leaf rfl).2 (.inr ⟨nofun, nofun⟩)
  have hstep {t u : Snapshot} (h : Step (fun _ => []) (perform [] 0) t u)
      (ht : Moves (fun _ => []) [] .empty t) : Moves (fun _ => []) [] .empty u :=
    ht.tail (.step h)
  have hmoves₁ : Moves (fun _ => []) [] .empty s₁ := hstep (.root (by simp)) .refl
  have hmoves₂ : Moves (fun _ => []) [] .empty s₂ :=
    hstep (.define List.mem_cons_self (hmakes s₁ 1)) hmoves₁
  have hmoves₃ : Moves (fun _ => []) [] .empty s₃ :=
    hstep (.define List.mem_cons_self (hmakes s₂ 2)) hmoves₂
  have hmoves₄ : Moves (fun _ => []) [] .empty s₄ := hstep (.child List.mem_cons_self) hmoves₃
  have hmoves : Moves (fun _ => []) [] .empty s :=
    hstep (.define List.mem_cons_self (hmakes s₄ 3)) hmoves₄
  have hhonest : Host.Honest (fun _ => []) [] := fun _ _ hp => nomatch hp
  have hperm : ∀ k, (s.world.store.frame k).Perm (store.frame k)
    | 0 => .swap ..
    | 1 => .refl _
    | k + 2 => .refl _
  have hlisted : s.world.store.visible ⟨1, [0]⟩ = [("a", .number 2), ("b", .number 3)] := rfl
  obtain ⟨-, hlookup, -, horder⟩ := Moves.visible_lookup hhonest hmoves ⟨1, [0]⟩
  refine ⟨s, store, hmoves, hlisted, ?_, rfl, (horder store hperm).trans hlisted⟩
  exact (hlookup "b" (.number 3)).1 (by simp [hlisted])

end Snapshot

end Lisplet

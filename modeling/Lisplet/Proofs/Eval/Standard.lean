import Lisplet.Eval.Global
import Lisplet.Proofs.Eval.Discipline

/-! Two disciplines at once, and the discipline of evaluation without host operations. -/

namespace Lisplet

namespace Value

def IsHost : Value → Prop
  | operation (.host _) => True
  | _ => False

def Standard (v : Value) : Prop :=
  v.Every fun u => ¬ u.IsHost

def Ground (v : Value) : Prop :=
  v.Every fun u => ¬ u.IsHost ∧ u.kind ≠ .function

variable {v : Value} {c : Scope}

lemma Ground.standard (h : v.Ground) : v.Standard :=
  h.imp fun _ hu => hu.1

lemma Ground.not_captures (h : v.Ground) : ¬ v.Captures c := by
  rintro ⟨mark, params, body, hf⟩
  exact (h _ hf).2 rfl

@[simp] lemma ground_number (n : Int64) : (number n).Ground :=
  (every_leaf rfl).2 ⟨id, nofun⟩

@[simp] lemma ground_symbol (name : String) : (symbol name).Ground :=
  (every_leaf rfl).2 ⟨id, nofun⟩

@[simp] lemma ground_list {mark : Option ℕ} {items : List Value} :
    (list mark items).Ground ↔ ∀ v ∈ items, v.Ground :=
  every_list.trans (and_iff_right ⟨id, nofun⟩)

lemma Stable.and {p q : Value → Prop} (hp : Stable p) (hq : Stable q) :
    Stable fun v => p v ∧ q v where
  plain hv := ⟨hp.plain hv, hq.plain hv⟩
  real hx := ⟨hp.real hx, hq.real hx⟩
  neg hx := ⟨hp.neg hx.1, hq.neg hx.2⟩

lemma not_isHost_of_plain (h : v.Plain) : ¬ v.IsHost := by
  cases v <;> first | exact id | exact h.elim

end Value

namespace Discipline

variable {ι κ : Type} [Preorder ι] [Preorder κ]

def prod (D : Discipline ι) (E : Discipline κ) : Discipline (ι × κ) where
  world i w := D.world i.1 w ∧ E.world i.2 w
  inner i c := D.inner i.1 c ∧ E.inner i.2 c
  outer i c := D.outer i.1 c ∧ E.outer i.2 c
  part i v := D.part i.1 v ∧ E.part i.2 v
  inner_mono hij h := ⟨D.inner_mono hij.1 h.1, E.inner_mono hij.2 h.2⟩
  part_mono hij h := ⟨D.part_mono hij.1 h.1, E.part_mono hij.2 h.2⟩
  outer_of_inner h := ⟨D.outer_of_inner h.1, E.outer_of_inner h.2⟩
  outer_of_part h := ⟨D.outer_of_part h.1, E.outer_of_part h.2⟩
  stable i := (D.stable i.1).and (E.stable i.2)
  bound hw hc hk hv := (D.bound hw.1 hc.1 hk hv).and (E.bound hw.2 hc.2 hk hv)
  quiet hw hquiet := ⟨D.quiet hw.1 hquiet, E.quiet hw.2 hquiet⟩
  define hw hc hv :=
    ⟨D.define hw.1 hc.1 (hv.imp fun _ h => h.1), E.define hw.2 hc.2 (hv.imp fun _ h => h.2)⟩
  assign hw hc hv hstore :=
    ⟨D.assign hw.1 hc.1 (hv.imp fun _ h => h.1) hstore,
      E.assign hw.2 hc.2 (hv.imp fun _ h => h.2) hstore⟩
  extend hw hc hbindings hordered := by
    obtain ⟨j, hj, hwj, hcj⟩ :=
      D.extend hw.1 hc.1 (fun e he => (hbindings e he).imp fun _ h => h.1) hordered
    obtain ⟨k, hk, hwk, hck⟩ :=
      E.extend hw.2 hc.2 (fun e he => (hbindings e he).imp fun _ h => h.2) hordered
    exact ⟨(j, k), ⟨hj, hk⟩, ⟨hwj, hwk⟩, hcj, hck⟩
  close hw hc hnodup hparams hbody := by
    obtain ⟨j, hj, hwj, hfj⟩ := D.close hw.1 hc.1 hnodup (fun n hn => (hparams n hn).1)
      fun v hv => (hbody v hv).imp fun _ h => h.1
    obtain ⟨k, hk, hwk, hfk⟩ := E.close hw.2 hc.2 hnodup (fun n hn => (hparams n hn).2)
      fun v hv => (hbody v hv).imp fun _ h => h.2
    exact ⟨(j, k), ⟨hj, hk⟩, ⟨hwj, hwk⟩, hfj, hfk⟩

variable {D : Discipline ι}

def standard : Discipline Stage where
  world _ w := w.store.All fun _ v => v.Standard
  inner _ _ := True
  outer _ _ := True
  part _ v := ¬ v.IsHost
  inner_mono _ h := h
  part_mono _ h := h
  outer_of_inner h := h
  outer_of_part _ := trivial
  stable _ := ⟨Value.not_isHost_of_plain, fun _ => id, fun _ => id⟩
  bound hw _ _ hv := hw _ _ hv
  quiet hw hquiet := hw.of_frames_eq hquiet.frames
  define hw _ hv := hw.bind hv
  assign hw _ hv hstore := hw.assign? (fun _ _ => hv) hstore
  extend {_ _ c _} hw _ hbindings _ := ⟨⟨⟩, le_rfl, hw.extend (some c) hbindings, trivial⟩
  close hw _ _ _ _ := ⟨⟨⟩, le_rfl, hw, id⟩

lemma admits_of_not_isHost (host : Host) (h : ∀ i v, D.part i v → ¬ v.IsHost) : D.Admits host :=
  fun i _ _ hpart => (h i _ hpart trivial).elim

lemma admits_prod_standard (host : Host) : (D.prod standard).Admits host :=
  admits_of_not_isHost host fun _ _ h => h.2

end Discipline

namespace Bindings

variable {bindings : Bindings} {entry : String × Value}

lemma mem_core (h : entry ∈ core) :
    ∃ op, entry.2 = .operation op ∧ ¬ (Value.operation op).IsHost := by
  obtain ⟨f, _, rfl⟩ := List.mem_map.1 (mem_ofList h)
  exact ⟨.core f, rfl, id⟩

lemma mem_global (h : entry ∈ global) :
    ∃ op, entry.2 = .operation op ∧ ¬ (Value.operation op).IsHost := by
  rcases mem_override h with h | h
  · exact mem_core h
  · obtain ⟨b, _, rfl⟩ := List.mem_map.1 (mem_ofList h)
    exact ⟨.builtin b, rfl, id⟩

lemma ground_start (hb : bindings ∈ [[], core, global]) (h : entry ∈ bindings) :
    entry.2.Ground := by
  have hop : ∃ op, entry.2 = .operation op ∧ ¬ (Value.operation op).IsHost := by
    simp only [List.mem_cons, List.not_mem_nil, or_false] at hb
    rcases hb with rfl | rfl | rfl
    · exact absurd h List.not_mem_nil
    · exact mem_core h
    · exact mem_global h
  obtain ⟨op, hop, hhost⟩ := hop
  exact hop ▸ (Value.every_leaf rfl).2 ⟨hhost, nofun⟩

lemma ground_global (h : entry ∈ global) : entry.2.Ground :=
  ground_start (by simp) h

lemma ordered_start (hb : bindings ∈ [[], core, global]) : bindings.Ordered := by
  simp only [List.mem_cons, List.not_mem_nil, or_false] at hb
  rcases hb with rfl | rfl | rfl
  · exact ordered_nil
  · exact ordered_ofList _
  · exact (ordered_ofList _).override library

end Bindings

lemma Store.all_empty {p : ℕ → Value → Prop} : Store.empty.All p :=
  fun k _ he => absurd (Store.lt_of_mem_frame he) (Nat.not_lt_zero k)

lemma World.start_all {p : ℕ → Value → Prop} {bindings : Bindings}
    (h : ∀ entry ∈ bindings, p 0 entry.2) : (World.start bindings).2.store.All p :=
  Store.all_empty.extend none h

end Lisplet

import Lisplet.Proofs.Eval.Discipline
import Lisplet.Proofs.Store.Lineage

/-! What evaluation settles once and for all: the frames around a frame when it makes the frame,
and what a closure is when it makes the closure. -/

namespace Lisplet

namespace Lineage

variable {l l' : Lineage} {owns : String → List Scope} {v : Value}

def Covers (l : Lineage) (owns : String → List Scope) (v : Value) : Prop :=
  ∀ c ∈ v.scopes owns, l.Has c

lemma Covers.mono (h : l.Covers owns v) (hl : l ≤ l') : l'.Covers owns v :=
  fun c hc => (h c hc).mono hl

lemma all_covers_extend {store : Store} {outer : Option Scope} {bindings : Bindings}
    (h : l.Fits store) (hall : store.All fun _ v => v.Every (l.Covers owns))
    (hbindings : ∀ entry ∈ bindings, entry.2.Every (l.Covers owns)) :
    (store.extend outer bindings).2.All
      fun _ v => v.Every ((l.extend store outer).Covers owns) := by
  have hold : store.All fun _ v => v.Every ((l.extend store outer).Covers owns) :=
    fun k entry he => (hall k entry he).imp fun _ hu => hu.mono h.le_extend
  exact hold.extend outer fun entry he => (hbindings entry he).imp fun _ hu => hu.mono h.le_extend

end Lineage

def scoping (owns : String → List Scope) : Discipline Lineage where
  world l w := l.Fits w.store ∧ w.store.All fun _ v => v.Every (l.Covers owns)
  inner l c := l.Has c
  outer l c := l.Has c
  part l v := l.Covers owns v
  inner_mono hl h := h.mono hl
  part_mono hl h := h.mono hl
  outer_of_inner h := h
  outer_of_part h := h _ (List.mem_singleton_self _)
  stable _ := Value.stable_scopes
  bound hw _ _ hv := hw.2 _ _ hv
  quiet hw hquiet := ⟨hw.1.of_frames_eq hquiet.frames, hw.2.of_frames_eq hquiet.frames⟩
  define hw _ hv := ⟨hw.1.bind, hw.2.bind hv⟩
  assign hw _ hv hstore := ⟨hw.1.assign? hstore, hw.2.assign? (fun _ _ => hv) hstore⟩
  extend {l w c bindings} hw hc hbindings _ := by
    refine ⟨_, hw.1.le_extend, ⟨hw.1.extend ?_, Lineage.all_covers_extend hw.1 hw.2 hbindings⟩,
      Lineage.has_extend⟩
    rintro _ ⟨⟩
    exact hc
  close hw hc _ _ _ := by
    refine ⟨_, le_rfl, ⟨hw.1.of_frames_eq rfl, hw.2.of_frames_eq rfl⟩, fun d hd => ?_⟩
    obtain rfl := List.mem_singleton.1 hd
    exact hc

abbrev Closures := Ledger (List String × List Value × Scope)

namespace Closures

variable {l l' : Closures} {v : Value}

def Agrees (l : Closures) : Value → Prop
  | .function mark params body c => l.get? mark = some (params, body, c)
  | _ => True

lemma Agrees.mono (h : l.Agrees v) (hl : l ≤ l') : l'.Agrees v := by
  cases v with
  | function => exact hl _ _ h
  | _ => trivial

lemma agrees_of_kind_ne (h : v.kind ≠ .function) : l.Agrees v := by
  cases v with
  | function => exact absurd rfl h
  | _ => trivial

lemma stable_agrees : Value.Stable l.Agrees where
  plain {v} hv := by
    cases v with
    | function => exact hv.elim
    | _ => trivial
  real _ := trivial
  neg _ := trivial

end Closures

def identity : Discipline Closures where
  world l w := (∀ m, w.store.marks ≤ m → l.get? m = none) ∧
    w.store.All fun _ v => v.Every l.Agrees
  inner _ _ := True
  outer _ _ := True
  part l v := l.Agrees v
  inner_mono _ h := h
  part_mono hl h := h.mono hl
  outer_of_inner h := h
  outer_of_part _ := trivial
  stable _ := Closures.stable_agrees
  bound hw _ _ hv := hw.2 _ _ hv
  quiet hw hquiet :=
    ⟨fun m hm => hw.1 m (hquiet.marks.trans hm), hw.2.of_frames_eq hquiet.frames⟩
  define hw _ hv := ⟨hw.1, hw.2.bind hv⟩
  assign hw _ hv hstore := by
    obtain ⟨index, hindex, rfl⟩ := Store.assign?_eq_some.1 hstore
    exact ⟨hw.1, hw.2.bind hv⟩
  extend {_ _ c _} hw _ hbindings _ :=
    ⟨_, le_rfl, ⟨hw.1, hw.2.extend (some c) hbindings⟩, trivial⟩
  close {l w c params body} hw _ _ _ _ := by
    have hl : l ≤ l.enter w.store.marks (params, body, c) := Ledger.le_enter (hw.1 _ le_rfl)
    refine ⟨_, hl, ⟨fun m hm => ?_, fun k entry he => ?_⟩, Ledger.get?_enter_self⟩
    · rw [Ledger.get?_enter_of_ne (Nat.ne_of_gt hm)]
      exact hw.1 m (Nat.le_of_lt hm)
    · exact (hw.2 k entry he).imp fun _ h => h.mono hl

end Lisplet

import Lisplet.Proofs.Program.Execution

/-! Whatever programs of source text compute from the core forms and the library can be written as
source text, as far as no closures and operations are in it. -/

namespace Lisplet

open Reader

namespace Value

variable {v : Value}

def IsRead (v : Value) : Prop :=
  ∃ source offset, readForms defaultOptions none source = .ok [(offset, v)]

def IsData (v : Value) : Prop :=
  v.Every fun u => u.kind ∉ [.function, .operation, .unspecified]

/-- Reals are finite, symbols are those of source text, and parts with no closures and operations
in them are read back from their own text. -/
structure Legible (v : Value) : Prop where
  real : ∀ x, Part (real x) v → x.isFinite = true
  symbol : ∀ name, Part (symbol name) v → (Value.symbol name).IsRead
  param : ∀ mark params body c, Part (function mark params body c) v →
    ∀ name ∈ params, (Value.symbol name).IsRead
  readsBack : ∀ u, Part u v → u.IsData →
    ∃ offset t, readForms defaultOptions none u.text = .ok [(offset, t)] ∧ (t == u) = true

def Clear : Value → Prop
  | real x => x.isFinite = true
  | symbol name => Readable (.symbol name)
  | function _ params _ _ => ∀ name ∈ params, Readable (.symbol name)
  | operation (.host _) => False
  | _ => True

lemma every_clear_of_readable (h : Readable v) : v.Every Clear := by
  refine every_of_readable (fun u hu => ?_) h
  cases hu with
  | real hx => exact hx
  | symbol hne ht hn => exact .symbol hne ht hn
  | _ => trivial

lemma every_clear_of_global {entry : String × Value} (h : entry ∈ Bindings.global) :
    entry.2.Every Clear := by
  obtain ⟨op, hop, hhost⟩ := Bindings.mem_global h
  refine hop ▸ (every_leaf rfl).2 ?_
  cases op with
  | host => exact hhost trivial
  | _ => trivial

lemma readable_of_isData (hdata : v.IsData) (h : v.Every Clear) : Readable v := by
  induction v using children_induction with
  | h v ih =>
    cases v with
    | number n => exact .number n
    | real x => exact .real h.here
    | string s => exact .string s
    | boolean b => exact .boolean b
    | symbol name => exact h.here
    | list mark items => exact .list fun w hw => ih w hw (hdata.child hw) (h.child hw)
    | function => exact absurd hdata.here (by simp [kind])
    | operation => exact absurd hdata.here (by simp [kind])
    | unspecified => exact absurd hdata.here (by simp [kind])

lemma exists_readForms_text (h : Readable v) :
    ∃ offset, readForms defaultOptions none v.text = .ok [(offset, unmarked v)] := by
  obtain ⟨fs, hfs, hmap⟩ := readForms_itemChars defaultOptions none (List.forall_mem_singleton.2 h)
  obtain ⟨⟨offset, w⟩, rfl, rfl⟩ := List.map_eq_singleton_iff.1 hmap
  exact ⟨offset, hfs⟩

lemma isRead_symbol {name : String} (h : Readable (.symbol name)) : (symbol name).IsRead :=
  ⟨_, exists_readForms_text h⟩

lemma legible_of_clear (h : v.Every Clear) : v.Legible where
  real _ hx := h _ hx
  symbol _ hname := isRead_symbol (h _ hname)
  param _ _ _ _ hf name hname := isRead_symbol (h _ hf name hname)
  readsBack u hu hdata := by
    have hreadable := readable_of_isData hdata (h.part hu)
    obtain ⟨offset, hread⟩ := exists_readForms_text hreadable
    exact ⟨offset, _, hread, hreadable.equal_unmarked⟩

lemma stable_clear : Stable Clear where
  plain {v} hv := by cases v <;> first | exact hv.elim | trivial
  real hx := hx
  neg hx := Decimal.isFinite_neg hx

end Value

def clarity : Discipline Stage where
  world _ w := w.store.All fun _ v => v.Every Value.Clear
  inner _ _ := True
  outer _ _ := True
  part _ := Value.Clear
  inner_mono _ h := h
  part_mono _ h := h
  outer_of_inner h := h
  outer_of_part _ := trivial
  stable _ := Value.stable_clear
  bound hw _ _ hv := hw _ _ hv
  quiet hw hquiet := hw.of_frames_eq hquiet.frames
  define hw _ hv := hw.bind hv
  assign hw _ hv hstore := hw.assign? (fun _ _ => hv) hstore
  extend {_ _ c _} hw _ hbindings _ := ⟨⟨⟩, le_rfl, hw.extend (some c) hbindings, trivial⟩
  close hw _ _ hparams _ := ⟨⟨⟩, le_rfl, hw, hparams⟩

lemma clarity_admits (host : Host) : clarity.Admits host :=
  fun _ _ _ h => False.elim h

namespace Program

variable {host : Host} {w' : World} {runs : List (Program × Except Fault Value)} {v : Value}

/-- However many programs have been executed in the global scope, and however they ended: all
results and all values bound in any frame are legible. -/
theorem Executes.legible
    (hsource : ∀ run ∈ runs, ∃ options label source, ofSource options label source = .ok run.1)
    (h : Executes host (World.start .global).1 (World.start .global).2 runs w')
    (hv : (∃ run ∈ runs, run.2 = .ok v) ∨ ∃ k name, (name, v) ∈ w'.store.frame k) :
    v.Legible := by
  refine Value.legible_of_clear ?_
  have hstart : clarity.world ⟨⟩ (World.start .global).2 :=
    World.start_all fun _ he => Value.every_clear_of_global he
  have hforms : ∀ run ∈ runs, clarity.values ⟨⟩ run.1.forms := by
    intro run hrun form hform
    obtain ⟨options, label, source, hread⟩ := hsource run hrun
    exact Value.every_clear_of_readable
      (readable_of_readForms (ofSource_eq_ok.1 hread).1 form hform)
  obtain ⟨_, _, hw', hresults⟩ := h.keeps (clarity_admits host) trivial hstart hforms
  rcases hv with ⟨run, hrun, hv⟩ | ⟨k, name, hv⟩
  · exact hresults run hrun v hv
  · exact hw' k _ hv

theorem Executes.legible_cons : ∃ first second fault v w',
    ofSource defaultOptions none "(define xs '(a)) (car 1)" = .ok first ∧
      ofSource defaultOptions none "(cons (/ 1 2) xs)" = .ok second ∧
      Executes [] (World.start .global).1 (World.start .global).2
        [(first, .error fault), (second, .ok v)] w' ∧
      v.items?.map (List.map Value.kind) = some [.real, .symbol] ∧ v.Legible := by
  obtain ⟨first, second, hfirst, hsecond, hruns⟩ : ∃ first second,
      ofSource defaultOptions none "(define xs '(a)) (car 1)" = .ok first ∧
        ofSource defaultOptions none "(cons (/ 1 2) xs)" = .ok second ∧
        ((first.execute [] 3 (World.start .global).1 (World.start .global).2).bind fun r₁ =>
          (second.execute [] 3 (World.start .global).1 r₁.2).map fun r₂ =>
            (r₁.1.isOk, (r₂.1.toOption.bind Value.items?).map (List.map Value.kind))) =
          some (false, some [.real, .symbol]) :=
    ⟨_, _, rfl, rfl, by decide +kernel⟩
  obtain ⟨⟨fault | _, w₁⟩, hrun₁, hruns⟩ := Option.bind_eq_some_iff.1 hruns
  · obtain ⟨⟨_ | v, w'⟩, hrun₂, hkinds⟩ := Option.map_eq_some_iff.1 hruns
    · cases hkinds
    · have h := Executes.cons hrun₁ (.cons hrun₂ (.nil w'))
      refine ⟨first, second, fault, v, w', hfirst, hsecond, h, (Prod.mk.inj hkinds).2, ?_⟩
      refine h.legible ?_ (.inl ⟨_, List.mem_cons_of_mem _ List.mem_cons_self, rfl⟩)
      exact List.forall_mem_cons.2 ⟨⟨_, _, _, hfirst⟩, List.forall_mem_singleton.2 ⟨_, _, _, hsecond⟩⟩
  · obtain ⟨_, _, hkinds⟩ := Option.map_eq_some_iff.1 hruns
    cases hkinds

end Program

end Lisplet

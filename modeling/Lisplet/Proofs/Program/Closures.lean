import Lisplet.Proofs.Eval.Rules
import Lisplet.Proofs.Program.ScopeGraph
import Lisplet.Proofs.Store.Lookup

/-! Making closures and entering them. The parameters of a closure are different names, and its body
is evaluated in a frame of its own, in which each of them is bound to the argument at its place. -/

namespace Lisplet

def Value.Distinct : Value → Prop
  | function _ params _ _ => params.Nodup
  | _ => True

lemma Value.distinct_of_kind_ne {v : Value} (h : v.kind ≠ .function) : v.Distinct := by
  cases v with
  | function => exact absurd rfl h
  | _ => trivial

def distinctness : Discipline Stage where
  world _ w := w.store.All fun _ v => v.Every Value.Distinct
  inner _ _ := True
  outer _ _ := True
  part _ := Value.Distinct
  inner_mono _ h := h
  part_mono _ h := h
  outer_of_inner h := h
  outer_of_part _ := trivial
  stable _ := {
    plain {v} hv := by cases v <;> first | exact hv.elim | trivial
    real _ := trivial
    neg _ := trivial }
  bound hw _ _ hv := hw _ _ hv
  quiet hw hquiet := hw.of_frames_eq hquiet.frames
  define hw _ hv := hw.bind hv
  assign hw _ hv hstore := hw.assign? (fun _ _ => hv) hstore
  extend {_ _ c _} hw _ hbindings _ := ⟨⟨⟩, le_rfl, hw.extend (some c) hbindings, trivial⟩
  close hw _ hnodup _ _ := ⟨⟨⟩, le_rfl, hw, hnodup⟩

lemma open_distinctness (owns : String → List Scope) : distinctness.Open owns where
  store hw heq := hw.of_frames_eq (congrArg Store.frames heq)
  values hw hv := hw _ _ hv
  root hw hbindings _ := ⟨⟨⟩, le_rfl, hw.extend none hbindings, trivial⟩
  parent _ _ _ := trivial
  part hkind _ := Value.distinct_of_kind_ne hkind
  owned _ _ _ := trivial

namespace Snapshot

variable {owns : String → List Scope} {host : Host} {s : Snapshot} {mark : ℕ}
  {params : List String} {body : List Value} {captured : Scope}

lemma Moves.nodup_params (hhost : host.Honest owns) (hs : Moves owns host .empty s)
    (hf : s.Present (.function mark params body captured)) : params.Nodup := by
  have hstart : distinctness.InOrder ⟨⟩ .empty :=
    ⟨Store.all_empty, fun _ _ => trivial, fun _ hv => absurd hv List.not_mem_nil⟩
  obtain ⟨i, -, hi⟩ := hstart.moves (open_distinctness owns) hhost hs
  exact (hi.present (open_distinctness owns) hf).here

lemma Moves.captured_lt (hhost : host.Honest owns) (hs : Moves owns host .empty s)
    (hf : s.Present (.function mark params body captured)) :
    ∀ k ∈ captured.path, k < s.world.store.frames.size := by
  obtain ⟨l, -, hl⟩ := inOrder_scoping.moves (open_scoping owns) hhost hs
  exact (hl.world.1.path ((Mentions.captured hf).has hl)).2

end Snapshot

namespace Eval

variable {go : Performer} {operands : List Value} {scope : Scope} {w : World}

def Declares (operands : List Value) (params : List String) (body : List Value) : Prop :=
  ∃ mark, operands = .list mark (params.map .symbol) :: body ∧ params.Nodup

lemma lambda_of_declares {params : List String} {body : List Value}
    (h : Declares operands params body) :
    lambda operands scope w =
      some (.ok (.function w.store.marks params body scope), w.marked) := by
  obtain ⟨mark, rfl, hnodup⟩ := h
  rw [lambda, params_eq_ok_iff.2 ⟨rfl, hnodup⟩]
  rfl

lemma lambda_of_not_declares (h : ∀ params body, ¬ Declares operands params body) :
    ∃ cause, lambda operands scope w = some (.error (.malformed cause), w) := by
  unfold lambda
  split
  · exact ⟨_, rfl⟩
  · next mark items body =>
    cases hparams : Eval.params [] items with
    | ok names =>
      obtain ⟨rfl, hnodup⟩ := params_eq_ok_iff.1 hparams
      exact absurd ⟨mark, rfl, hnodup⟩ (h names body)
    | error cause => exact ⟨cause, rfl⟩
  · exact ⟨_, rfl⟩

structure Entered (params : List String) (captured : Scope) (args : List Value) (w : World)
    (inner : Scope) (w' : World) : Prop where
  fresh : w.store.frames[inner.frame]? = none
  made : inner.frame < w'.store.frames.size
  parent : inner.parent? = some captured
  kept : ∀ k, k ≠ inner.frame → w'.store.frames[k]? = w.store.frames[k]?
  names : ∀ name, (w'.store.frame inner.frame).contains name ↔ name ∈ params
  transcript : w'.transcript = w.transcript
  param : ∀ i, (hi : i < params.length) → w'.store.get? inner params[i] = args[i]?
  other : ∀ name, name ∉ params → w'.store.get? inner name = w.store.get? captured name

variable {params : List String} {body args : List Value} {captured : Scope}

lemma entered (hnodup : params.Nodup) (hlength : params.length = args.length)
    (hcaptured : ∀ k ∈ captured.path, k < w.store.frames.size) :
    Entered params captured args w
      (w.store.extend (some captured) (Bindings.ofList (params.zip args))).1
      (w.stored (w.store.extend (some captured) (Bindings.ofList (params.zip args))).2) := by
  have hparam : ∀ i, (hi : i < params.length) →
      (Bindings.ofList (params.zip args)).get? params[i] = args[i]? :=
    fun i => Bindings.get?_override_zip hnodup hlength
  have hother : ∀ name, name ∉ params →
      (Bindings.ofList (params.zip args)).get? name = none :=
    fun name hname => Bindings.get?_override_of_not_mem (Bindings.not_mem_zip hname)
  generalize Bindings.ofList (params.zip args) = bindings at hparam hother ⊢
  have hframe : (w.store.extend (some captured) bindings).2.frame w.store.frames.size = bindings :=
    Store.frame_extend_self
  have hbound {i : ℕ} (hi : i < params.length) : bindings.contains params[i] := by
    rw [Bindings.contains, hparam i hi, List.getElem?_eq_getElem (hlength ▸ hi)]
    rfl
  constructor
  case fresh => exact Array.getElem?_eq_none le_rfl
  case made =>
    change w.store.frames.size < (w.store.extend (some captured) bindings).2.frames.size
    rw [Store.size_extend]
    exact Nat.lt_succ_self _
  case parent => rfl
  case kept =>
    intro k hk
    exact Array.getElem?_push.trans (if_neg hk)
  case names =>
    intro name
    change ((w.store.extend (some captured) bindings).2.frame w.store.frames.size).contains name ↔ _
    rw [hframe]
    constructor
    · intro hname
      by_contra hmem
      exact Bindings.not_contains_iff.2 (hother name hmem) hname
    · intro hname
      obtain ⟨i, hi, rfl⟩ := List.getElem_of_mem hname
      exact hbound hi
  case transcript => rfl
  case param =>
    intro i hi
    have hhere : ((w.store.extend (some captured) bindings).2.frame
        w.store.frames.size).contains params[i] := by
      rw [hframe]
      exact hbound hi
    refine (Store.get?_here (t := ⟨w.store.frames.size, captured.path⟩) hhere).trans ?_
    rw [hframe, hparam i hi]
  case other =>
    intro name hname
    have hnone : ¬ ((w.store.extend (some captured) bindings).2.frame
        w.store.frames.size).contains name := by
      rw [hframe]
      exact Bindings.not_contains_iff.2 (hother name hname)
    refine (Store.get?_outwards (t := ⟨w.store.frames.size, captured.path⟩) hnone rfl).trans ?_
    exact Store.get?_congr (fun k hk => Store.frame_extend_of_ne (hcaptured k hk).ne) name

lemma lambda_eq_ok_iff {v : Value} {w' : World} :
    lambda operands scope w = some (.ok v, w') ↔
      ∃ params body, Declares operands params body ∧
        v = .function w.store.marks params body scope ∧ w' = w.marked := by
  constructor
  · intro h
    by_cases hdeclares : ∃ params body, Declares operands params body
    · obtain ⟨params, body, hdeclares⟩ := hdeclares
      cases h.symm.trans (lambda_of_declares hdeclares)
      exact ⟨params, body, hdeclares, rfl, rfl⟩
    · push Not at hdeclares
      obtain ⟨cause, herror⟩ := @lambda_of_not_declares _ scope w hdeclares
      cases h.symm.trans herror
  · rintro ⟨params, body, hdeclares, rfl, rfl⟩
    exact lambda_of_declares hdeclares

end Eval

namespace Snapshot

variable {owns : String → List Scope} {host : Host} {s : Snapshot}

/-- A `lambda` form makes a closure if its first operand is a list of different names, and is refused
otherwise, so whatever a host does, the parameters of a closure are different names. A closure that
is called with another number of arguments fails at once. With as many arguments as parameters, its
body is evaluated in order in a scope of its own, which does not depend on the caller. -/
theorem Moves.closures (hhost : host.Honest owns) (hs : Moves owns host .empty s) :
    (∀ go operands scope w,
      (∀ v w', Eval.core go .lambda operands scope w = some (.ok v, w') ↔
        ∃ params body, Eval.Declares operands params body ∧
          v = .function w.store.marks params body scope ∧ w' = w.marked) ∧
      ((∀ params body, ¬ Eval.Declares operands params body) →
        ∃ cause, Eval.core go .lambda operands scope w = some (.error (.malformed cause), w))) ∧
    (∀ mark params body captured, s.Present (.function mark params body captured) →
      params.Nodup ∧ ∀ k ∈ captured.path, k < s.world.store.frames.size) ∧
    ∀ go params body captured args w, params.Nodup →
      (∀ k ∈ captured.path, k < w.store.frames.size) →
      (params.length ≠ args.length → Eval.enter go params body captured args w =
        some (.error (.arity params.length args.length none), w)) ∧
      (params.length = args.length → ∃ inner w', Eval.Entered params captured args w inner w' ∧
        Eval.enter go params body captured args w = Eval.sequence go body inner w') ∧
      ∀ host mark operands caller w₀, Eval.args go operands caller w₀ = some (.ok args, w) →
        Eval.apply go host (.function mark params body captured) operands caller w₀ =
          Eval.enter go params body captured args w := by
  refine ⟨fun go operands scope w => ⟨fun _ _ => Eval.lambda_eq_ok_iff, ?_⟩, ?_, ?_⟩
  · exact Eval.lambda_of_not_declares
  · exact fun mark params body captured hf => ⟨hs.nodup_params hhost hf, hs.captured_lt hhost hf⟩
  · intro go params body captured args w hnodup hcaptured
    refine ⟨fun hlength => ?_, fun hlength => ?_, fun host mark operands caller w₀ hargs => ?_⟩
    · rw [Eval.enter, if_neg hlength]
      rfl
    · refine ⟨_, _, Eval.entered hnodup hlength hcaptured, ?_⟩
      rw [Eval.enter, if_pos hlength]
      rfl
    · exact Run.bind_of_ok hargs

theorem Moves.closures_pair : ∃ s mark body captured inner w',
    Moves (fun _ => []) [] .empty s ∧
    s.Present (.function mark ["x", "car"] body captured) ∧
    (∀ go, Eval.enter go ["x", "car"] body captured [.number 1] s.world =
      some (.error (.arity 2 1 none), s.world)) ∧
    Eval.Entered ["x", "car"] captured [.number 1, .number 2] s.world inner w' ∧
    Eval.enter (perform [] 1) ["x", "car"] body captured [.number 1, .number 2] s.world =
      some (.ok (.number 2), w') ∧
    (∀ caller, Eval.apply (perform [] 1) [] (.function mark ["x", "car"] body captured)
      [.number 1, .number 2] caller s.world = some (.ok (.number 2), w')) ∧
    w'.store.get? inner "car" = some (.number 2) ∧
    w'.store.get? inner "cdr" = s.world.store.get? captured "cdr" := by
  let body := [Value.symbol "x", .symbol "car"]
  let form := Value.ofList (.symbol "lambda" :: .ofList [.symbol "x", .symbol "car"] :: body)
  let closure := Value.function 0 ["x", "car"] body ⟨0, []⟩
  let s₁ := Snapshot.empty.extend none .global
  let s := s₁.after (.ok closure) (s₁.world.logged (.executing 0 form)).marked
  obtain ⟨program, hsource, hforms⟩ : ∃ program,
      Program.ofSource Reader.defaultOptions none "(lambda (x car) x car)" = .ok program ∧
        program.forms = [form] := ⟨_, rfl, rfl⟩
  have hlambda : s₁.world.store.get? ⟨0, []⟩ "lambda" = some (.operation (.core .lambda)) := rfl
  have hrun : program.execute [] 2 ⟨0, []⟩ s₁.world = some (.ok closure, s.world) := by
    rw [Program.execute, hforms, Program.executeFrom_cons (eval_lambda hlambda rfl)]
    rfl
  have hroot : Step (fun _ => []) (perform [] 0) .empty s₁ := .root (by simp)
  have hmoves : Moves (fun _ => []) [] .empty s :=
    (Relation.ReflTransGen.single (.step hroot)).tail (.execute List.mem_cons_self hsource hrun)
  have hpresent : s.Present closure := ⟨closure, .inl List.mem_cons_self, .self _⟩
  have hhonest : Host.Honest (fun _ => []) [] := fun _ _ hp => nomatch hp
  obtain ⟨-, hclosures, henter⟩ := Moves.closures hhonest hmoves
  obtain ⟨hnodup, hcaptured⟩ := hclosures _ _ _ _ hpresent
  have hone (go : Performer) := henter go _ body _ [.number 1] _ hnodup hcaptured
  have htwo := henter (perform [] 1) _ body _ [.number 1, .number 2] _ hnodup hcaptured
  obtain ⟨inner, w', hentered, hbody⟩ := htwo.2.1 rfl
  have hx : w'.store.get? inner "x" = some (.number 1) := hentered.param 0 (by decide)
  have hcar : w'.store.get? inner "car" = some (.number 2) := hentered.param 1 (by decide)
  have hsequence : Eval.sequence (perform [] 1) body inner w' = some (.ok (.number 2), w') := by
    rw [sequence_pair, Run.bind_of_ok (eval_symbol hx)]
    exact eval_symbol hcar
  have hreturn := hbody.trans hsequence
  refine ⟨s, 0, body, _, inner, w', hmoves, hpresent, fun go => ?_, hentered, hreturn, ?_, hcar, ?_⟩
  · exact (hone go).1 (by decide)
  · exact fun caller => (htwo.2.2 [] 0 _ caller _ rfl).trans hreturn
  · exact hentered.other "cdr" (by decide)

end Snapshot

end Lisplet

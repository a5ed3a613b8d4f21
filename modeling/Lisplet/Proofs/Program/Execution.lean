import Lisplet.Proofs.Eval.Standard
import Lisplet.Proofs.Program.RoundTrip

/-! Executing programs. A program runs its forms in order and ends at the first fault; what it did
before the fault stays done. -/

namespace Lisplet

open Reader

namespace Value

variable {v : Value}

lemma every_of_readable {p : Value → Prop} (hp : ∀ u, Readable u → p u) (h : Readable v) :
    v.Every p := by
  induction h with
  | list h ih => exact every_iff.2 ⟨hp _ (.list h), ih⟩
  | number n => exact (every_leaf rfl).2 (hp _ (.number n))
  | real hx => exact (every_leaf rfl).2 (hp _ (.real hx))
  | string s => exact (every_leaf rfl).2 (hp _ (.string s))
  | boolean b => exact (every_leaf rfl).2 (hp _ (.boolean b))
  | symbol hne ht hn => exact (every_leaf rfl).2 (hp _ (.symbol hne ht hn))

lemma ground_of_readable (h : Readable v) : v.Ground := by
  refine every_of_readable (fun u hu => ?_) h
  cases hu <;> exact ⟨id, nofun⟩

end Value

namespace Discipline

variable {ι : Type} [Preorder ι] {D : Discipline ι} {i : ι} {host : Host} {fuel : ℕ} {scope : Scope}

lemma keeps_executeFrom (hhost : D.Admits host) {index : ℕ} {last : Value} {forms : List Value}
    (hlast : D.value i last) (hforms : D.values i forms) (hscope : D.inner i scope) :
    D.Keeps i D.value (Program.executeFrom host fuel scope index last forms) := by
  induction forms generalizing i index last with
  | nil => exact keeps_pure hlast
  | cons form forms ih =>
    obtain ⟨hform, hforms⟩ := List.forall_mem_cons.1 hforms
    have hlog : D.Keeps i (fun _ _ => True) (Run.log (.executing index form)) := by
      rintro w r w' hw ⟨⟩
      exact ⟨i, le_rfl, D.quiet hw (World.quiet_logged _), fun _ _ => trivial⟩
    refine keeps_bind hlog fun j _ hij _ => ?_
    have heval := obeys_perform hhost fuel j (.eval form) scope (value_mono hij hform)
      (D.inner_mono hij hscope)
    refine keeps_bind heval fun k v hjk hv => ?_
    have hik := hij.trans hjk
    exact ih hv (values_mono hik hforms) (D.inner_mono hik hscope)

theorem keeps_execute (hhost : D.Admits host) {program : Program}
    (hforms : D.values i program.forms) (hscope : D.inner i scope) :
    D.Keeps i D.value (program.execute host fuel scope) :=
  keeps_executeFrom hhost (value_plain trivial rfl) hforms hscope

end Discipline

namespace Program

lemma executeFrom_cons {host : Host} {fuel index : ℕ} {scope : Scope} {last form v : Value}
    {forms : List Value} {w w₁ : World}
    (hform : eval host fuel form scope (w.logged (.executing index form)) = some (.ok v, w₁)) :
    executeFrom host fuel scope index last (form :: forms) w =
      executeFrom host fuel scope (index + 1) v forms w₁ := by
  have hlog : Run.log (.executing index form) w =
    some (.ok (), w.logged (.executing index form)) := rfl
  simp only [executeFrom, Run.bind_apply, hlog, hform, Option.bind_some]

lemma executeFrom_singleton {host : Host} {fuel index : ℕ} {scope : Scope} {last form : Value}
    {w : World} : executeFrom host fuel scope index last [form] w =
      eval host fuel form scope (w.logged (.executing index form)) := by
  have hlog : Run.log (.executing index form) w =
    some (.ok (), w.logged (.executing index form)) := rfl
  rw [executeFrom, Run.bind_of_ok hlog]
  exact congrFun (bind_pure (eval host fuel form scope)) _

lemma ground_forms {options : Options} {label : Option String} {source : String} {p : Program}
    (h : ofSource options label source = .ok p) : ∀ v ∈ p.forms, v.Ground :=
  fun v hv => Value.ground_of_readable (readable_of_readForms (ofSource_eq_ok.1 h).1 v hv)

inductive Executes (host : Host) (scope : Scope) :
    World → List (Program × Except Fault Value) → World → Prop
  | nil (w : World) : Executes host scope w [] w
  | cons {w w₁ w' : World} {fuel : ℕ} {program : Program} {result : Except Fault Value}
      {rest : List (Program × Except Fault Value)} :
      program.execute host fuel scope w = some (result, w₁) → Executes host scope w₁ rest w' →
      Executes host scope w ((program, result) :: rest) w'

variable {ι : Type} [Preorder ι] {D : Discipline ι} {i : ι} {host : Host} {scope : Scope}
  {w w' : World} {runs : List (Program × Except Fault Value)}

theorem Executes.keeps (hhost : D.Admits host) (hscope : D.inner i scope) (hw : D.world i w)
    (hforms : ∀ run ∈ runs, D.values i run.1.forms) (h : Executes host scope w runs w') :
    ∃ j, i ≤ j ∧ D.world j w' ∧ ∀ run ∈ runs, ∀ v, run.2 = .ok v → D.value j v := by
  induction h generalizing i with
  | nil w => exact ⟨i, le_rfl, hw, fun _ hrun => absurd hrun List.not_mem_nil⟩
  | cons hrun _ ih =>
    obtain ⟨hfirst, hforms⟩ := List.forall_mem_cons.1 hforms
    obtain ⟨j, hij, hw₁, hresult⟩ := Discipline.keeps_execute hhost hfirst hscope _ _ _ hw hrun
    obtain ⟨k, hjk, hw', hresults⟩ := ih (D.inner_mono hij hscope) hw₁
      fun run hrun => Discipline.values_mono hij (hforms run hrun)
    refine ⟨k, hij.trans hjk, hw', List.forall_mem_cons.2 ⟨fun v hv => ?_, hresults⟩⟩
    exact Discipline.value_mono hjk (hresult v hv)

end Program

end Lisplet

import Lisplet.Eval.Global
import Lisplet.Proofs.Eval.Discipline
import Lisplet.Proofs.Library.Integers

/-! What evaluation comes to, form by form. Each rule takes one list apart whose operator is a
symbol. -/

namespace Lisplet

namespace Bindings

lemma get?_library (b : Builtin) : library.get? b.name = some (.operation (.builtin b)) := by
  refine get?_override_of_mem ?_ (List.mem_map.2 ⟨b, ?_, rfl⟩)
  · decide
  · rcases b with f | f <;> cases f <;> decide

lemma get?_global (b : Builtin) : global.get? b.name = some (.operation (.builtin b)) :=
  get?_override_of_mem (by decide +kernel) (mem_of_get? (get?_library b))

lemma get?_global_core (f : CoreForm) : global.get? f.name = some (.operation (.core f)) := by
  have hlibrary : ∀ name ∈ CoreForm.all.map CoreForm.name, name ∉ library.map Prod.fst := by
    decide +kernel
  have hf : f ∈ CoreForm.all := by cases f <;> decide
  refine (get?_override_of_not_mem (hlibrary _ (List.mem_map_of_mem hf))).trans ?_
  cases f <;> rfl

end Bindings

variable {host : Host} {fuel : ℕ} {scope captured : Scope} {w w₁ w₂ : World} {name op : String}
  {form v : Value} {forms operands vs body : List Value} {params : List String} {fault : Fault}
  {store : Store} {m : ℕ}

lemma eval_symbol (h : w.store.get? scope name = some v) :
    eval host (fuel + 1) (.symbol name) scope w = some (.ok v, w) := by
  change Run.lookup scope name w = _
  rw [Run.lookup, h]
  rfl

lemma args_cons (hform : eval host fuel form scope w = some (.ok v, w₁))
    (hforms : Eval.args (perform host fuel) forms scope w₁ = some (.ok vs, w₂)) :
    Eval.args (perform host fuel) (form :: forms) scope w = some (.ok (v :: vs), w₂) := by
  change perform host fuel (.eval form) scope w = _ at hform
  change List.mapM (fun form => perform host fuel (.eval form) scope) forms w₁ = _ at hforms
  rw [Eval.args, List.mapM_cons]
  simp only [Run.bind_apply, hform, hforms, Option.bind_some]
  rfl

lemma eval_list_of_ok {mark : Option ℕ} {operator : Value}
    (hop : eval host fuel operator scope w = some (.ok v, w₁)) :
    eval host (fuel + 1) (.list mark (operator :: operands)) scope w =
      (Eval.apply (perform host fuel) host v operands scope).within
        (.list mark (operator :: operands)) w₁ :=
  Run.bind_of_ok hop

lemma eval_list (hop : w.store.get? scope op = some v) :
    eval host (fuel + 2) (.ofList (.symbol op :: operands)) scope w =
      (Eval.apply (perform host (fuel + 1)) host v operands scope).within
        (.ofList (.symbol op :: operands)) w :=
  eval_list_of_ok (eval_symbol hop)

lemma eval_define (hop : w.store.get? scope op = some (.operation (.core .define)))
    (hform : eval host (fuel + 1) form scope w = some (.ok v, w₁)) :
    eval host (fuel + 2) (.ofList [.symbol op, .symbol name, form]) scope w =
      some (.ok v, (w₁.logged (.defined name v)).stored (w₁.store.define scope name v)) := by
  change perform host (fuel + 1) (.eval form) scope w = _ at hform
  rw [eval_list hop, Run.within, Eval.apply, Eval.core, Eval.define, Eval.target, Run.bind_apply,
    hform]
  rfl

lemma eval_assign (hop : w.store.get? scope op = some (.operation (.core .assign)))
    (hform : eval host (fuel + 1) form scope w = some (.ok v, w₁))
    (hstore : w₁.store.assign? scope name v = some store) :
    eval host (fuel + 2) (.ofList [.symbol op, .symbol name, form]) scope w =
      some (.ok v, (w₁.logged (.assigned name v)).stored store) := by
  change perform host (fuel + 1) (.eval form) scope w = _ at hform
  have hassign : Run.assign scope name v (w₁.logged (.assigned name v)) =
      some (.ok v, (w₁.logged (.assigned name v)).stored store) := by
    rw [Run.assign, hstore]
  have hlog : Run.log (.assigned name v) w₁ = some (.ok (), w₁.logged (.assigned name v)) := rfl
  rw [eval_list hop, Run.within, Eval.apply, Eval.core, Eval.assign, Eval.target, Run.bind_apply,
    hform]
  simp only [Option.bind_some, Run.bind_apply, hlog, hassign]
  rfl

lemma eval_assign_error (hop : w.store.get? scope op = some (.operation (.core .assign)))
    (hform : eval host (fuel + 1) form scope w = some (.error fault, w₁)) :
    eval host (fuel + 2) (.ofList [.symbol op, .symbol name, form]) scope w =
      some (.error (fault.within (.ofList [.symbol op, .symbol name, form])), w₁) := by
  change perform host (fuel + 1) (.eval form) scope w = _ at hform
  rw [eval_list hop, Run.within, Eval.apply, Eval.core, Eval.assign, Eval.target, Run.bind_apply,
    hform]
  rfl

lemma eval_lambda {mark : Option ℕ} (hop : w.store.get? scope op = some (.operation (.core .lambda)))
    (hparams : Eval.params [] forms = .ok params) :
    eval host (fuel + 2) (.ofList (.symbol op :: .list mark forms :: body)) scope w =
      some (.ok (.function w.store.marks params body scope), w.marked) := by
  rw [eval_list hop, Run.within, Eval.apply, Eval.core, Eval.lambda, hparams]
  rfl

lemma eval_quote (hop : w.store.get? scope op = some (.operation (.core .quote))) :
    eval host (fuel + 2) (.ofList [.symbol op, form]) scope w = some (.ok form, w) := by
  rw [eval_list hop]
  rfl

namespace Eval

variable {go : Performer}

lemma builtin_of_accepted {b : Builtin} (h : b.arity.broken? operands.length = none) :
    builtin go b operands scope =
      match b with
      | .form f => control go f operands scope
      | .function f => args go operands scope >>= f.call := by
  have hcheck : b.arity.check operands.length = .ok () := by rw [Arity.check, h]
  cases b <;> rw [builtin, hcheck] <;> rfl

lemma branch_accepts (test yes : Value) (no : Option Value) :
    (Builtin.form .branch).arity.broken? (test :: yes :: no.toList).length = none := by
  cases no <;> rfl

lemma apply_branch (test yes : Value) (no : Option Value) :
    apply go host (.operation (.builtin (.form .branch))) (test :: yes :: no.toList) scope =
      choose go test yes no scope := by
  rw [apply, builtin_of_accepted (branch_accepts test yes no)]
  cases no <;> rfl

lemma apply_sequence :
    apply go host (.operation (.builtin (.form .sequence))) forms scope =
      sequence go forms scope := by
  rw [apply, builtin_of_accepted rfl]
  rfl

end Eval

lemma eval_call {f : LibraryFunction} (hop : w.store.get? scope op =
      some (.operation (.builtin (.function f))))
    (harity : f.arity.check operands.length = .ok ())
    (hargs : Eval.args (perform host (fuel + 1)) operands scope w = some (.ok vs, w₁)) :
    eval host (fuel + 2) (.ofList (.symbol op :: operands)) scope w =
      (f.call vs).within (.ofList (.symbol op :: operands)) w₁ := by
  have hbuiltin : Eval.builtin (perform host (fuel + 1)) (.function f) operands scope w =
      f.call vs w₁ := by
    rw [Eval.builtin, Builtin.arity, harity]
    exact Run.bind_of_ok hargs
  rw [eval_list hop, Run.within, Eval.apply, hbuiltin, Run.within]

namespace LibraryFunction

variable {mark : Option ℕ}

lemma call_add (a b : Int64) : add.call [.number a, .number b] =
    Library.number (Num.exactly .addition (a.toInt + b.toInt)) := by
  have hsum : add.call ([Num.int a, Num.int b].map Num.toValue) =
      Library.number (Num.chain Num.add (.int a) [.int b]) := by
    rw [call_sum, chain_zero]
  refine hsum.trans ?_
  change Library.number ((Num.exactly .addition (a.toInt + b.toInt)).bind
    (Num.chain Num.add · [])) = _
  cases Num.exactly .addition (a.toInt + b.toInt) <;> rfl

lemma call_first : first.call [.list mark (v :: vs)] w = some (.ok v, w) := by
  rw [call, run_oneList]
  rfl

lemma call_rest : rest.call [.list mark (v :: vs)] w =
    some (.ok (.list (some w.store.marks) vs), w.marked) := by
  rw [call, run_oneList]
  rfl

end LibraryFunction

lemma eval_sum {x y : Value} {a b c : Int64}
    (hop : w.store.get? scope op = some (.operation (.builtin (.function .add))))
    (hargs : Eval.args (perform host (fuel + 1)) [x, y] scope w =
      some (.ok [.number a, .number b], w₁))
    (hfit : Integer.fit? (a.toInt + b.toInt) = some c) :
    eval host (fuel + 2) (.ofList [.symbol op, x, y]) scope w = some (.ok (.number c), w₁) := by
  rw [eval_call hop rfl hargs, LibraryFunction.call_add, Num.exactly, hfit]
  rfl

lemma eval_sum_overflow {x y : Value} {a b : Int64}
    (hop : w.store.get? scope op = some (.operation (.builtin (.function .add))))
    (hargs : Eval.args (perform host (fuel + 1)) [x, y] scope w =
      some (.ok [.number a, .number b], w₁))
    (hfit : Integer.fit? (a.toInt + b.toInt) = none) :
    eval host (fuel + 2) (.ofList [.symbol op, x, y]) scope w =
      some (.error (.failure (.integerOverflow .addition) (some (.ofList [.symbol op, x, y]))),
        w₁) := by
  have hplain : Fault.isMarked (Failure.integerOverflow .addition).text = false := by
    decide +kernel
  have hrun : Library.number (Num.exactly .addition (a.toInt + b.toInt)) w₁ =
      some (.error (.failure (.integerOverflow .addition) none), w₁) := by
    rw [Num.exactly, hfit]
    rfl
  rw [eval_call hop rfl hargs, LibraryFunction.call_add, Run.within_of_error hrun, Fault.within,
    hplain]
  rfl

lemma eval_closure (hop : w.store.get? scope op = some (.function m params body captured))
    (hargs : Eval.args (perform host (fuel + 1)) operands scope w = some (.ok vs, w₁))
    (hlength : params.length = vs.length) :
    eval host (fuel + 2) (.ofList (.symbol op :: operands)) scope w =
      (Eval.sequence (perform host (fuel + 1)) body
        (w₁.store.extend (some captured) (Bindings.ofList (params.zip vs))).1).within
          (.ofList (.symbol op :: operands))
        (w₁.stored (w₁.store.extend (some captured) (Bindings.ofList (params.zip vs))).2) := by
  have henter : (Eval.args (perform host (fuel + 1)) operands scope >>=
        Eval.enter (perform host (fuel + 1)) params body captured) w =
      Eval.sequence (perform host (fuel + 1)) body
        (w₁.store.extend (some captured) (Bindings.ofList (params.zip vs))).1
        (w₁.stored (w₁.store.extend (some captured) (Bindings.ofList (params.zip vs))).2) := by
    rw [Run.bind_of_ok hargs, Eval.enter, if_pos hlength]
    rfl
  rw [eval_list hop, Run.within, Eval.apply, henter, Run.within]

lemma sequence_singleton : Eval.sequence (perform host fuel) [form] scope = eval host fuel form scope :=
  bind_pure _

lemma sequence_pair {first second : Value} :
    Eval.sequence (perform host fuel) [first, second] scope =
      (eval host fuel first scope >>= fun _ => eval host fuel second scope) := by
  have hsecond : (fun _ : Value => [second].foldlM
      (fun _ form => perform host fuel (.eval form) scope) .unspecified) = fun _ =>
        eval host fuel second scope := funext fun _ => sequence_singleton
  rw [Eval.sequence, List.foldlM_cons]
  exact congrArg _ hsecond

end Lisplet

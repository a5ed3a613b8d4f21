import Lisplet.Eval.Global
import Lisplet.Proofs.Eval.Rules
import Mathlib.Data.List.Infix

/-! The context of a fault is the innermost application that failed. The evaluations around it pass
the fault on as it is. -/

namespace Lisplet

lemma Text.occursIn_iff {piece text : List Char} : occursIn piece text = true ↔ piece <:+: text := by
  induction text with
  | nil => rw [occursIn, List.isEmpty_iff, List.infix_nil]
  | cons c cs ih => rw [occursIn, Bool.or_eq_true, ih, List.isPrefixOf_iff_prefix, List.infix_cons_iff]

namespace Fault

def detail? : Fault → Option String
  | failure cause context => some (cause.text ++ contextText context)
  | mismatch cause context => some (cause.text ++ contextText context)
  | _ => none

def Located (fault : Fault) : Prop :=
  ∀ m ∈ fault.detail?, contextMark.toList <:+: m.toList

def contextual (form : Value) (m : String) : String :=
  if contextMark.toList <:+: m.toList then m
  else m ++ contextMark ++ "while evaluating: " ++ form.text

inductive Becomes (form : Value) : Fault → Fault → Prop
  | failure {cause : Failure} {context context' : Option Value} :
      cause.text ++ contextText context' = contextual form (cause.text ++ contextText context) →
      Becomes form (failure cause context) (failure cause context')
  | mismatch {cause : Mismatch} {context context' : Option Value} :
      cause.text ++ contextText context' = contextual form (cause.text ++ contextText context) →
      Becomes form (mismatch cause context) (mismatch cause context')
  | same {fault : Fault} : fault.detail? = none → Becomes form fault fault

variable {fault : Fault} {form : Value} {context : Option Value} {m : String}

lemma isMarked_iff : isMarked m = true ↔ contextMark.toList <:+: m.toList :=
  Text.occursIn_iff

lemma marked_append_contextText (m : String) (form : Value) :
    contextMark.toList <:+: (m ++ contextText (some form)).toList := by
  refine ⟨m.toList, ("while evaluating: " ++ form.text).toList, ?_⟩
  simp only [contextText, String.toList_append, List.append_assoc]

lemma contextText_within (m : String) (form : Value) :
    m ++ contextText (if isMarked m then none else some form) = contextual form m := by
  by_cases h : isMarked m = true
  · rw [contextual, if_pos h, if_pos (isMarked_iff.1 h)]
    exact String.append_empty
  · rw [contextual, if_neg h, if_neg fun hm => h (isMarked_iff.2 hm)]
    simp only [contextText, String.append_assoc]

lemma contextual_of_context (m : String) (form other : Value) :
    contextual form (m ++ contextText (some other)) = m ++ contextText (some other) :=
  if_pos (marked_append_contextText m other)

lemma becomes_within (form : Value) (fault : Fault) : Becomes form fault (fault.within form) := by
  cases fault with
  | failure cause context => cases context with
    | none => exact .failure ((contextText_within _ form).trans (congrArg _ String.append_empty.symm))
    | some other => exact .failure (contextual_of_context _ form other).symm
  | mismatch cause context => cases context with
    | none => exact .mismatch ((contextText_within _ form).trans (congrArg _ String.append_empty.symm))
    | some other => exact .mismatch (contextual_of_context _ form other).symm
  | _ => exact .same rfl

lemma marked_contextual (form : Value) (m : String) :
    contextMark.toList <:+: (contextual form m).toList := by
  rw [← contextText_within]
  split
  · next h => simpa [contextText] using isMarked_iff.1 h
  · exact marked_append_contextText m form

lemma Becomes.detail?_eq {fault' : Fault} (h : Becomes form fault fault') :
    fault'.detail? = fault.detail?.map (contextual form) := by
  cases h with
  | failure heq => exact congrArg some heq
  | mismatch heq => exact congrArg some heq
  | same hnone => rw [hnone, Option.map_none]

lemma Becomes.located {fault' : Fault} (h : Becomes form fault fault') : fault'.Located := by
  intro m hm
  rw [h.detail?_eq] at hm
  obtain ⟨text, -, rfl⟩ := Option.mem_map.1 hm
  exact marked_contextual form text

lemma located_within (form : Value) (fault : Fault) : (fault.within form).Located :=
  (becomes_within form fault).located

lemma Located.within_eq (h : fault.Located) (form : Value) : fault.within form = fault := by
  have hplain {text : String} (hm : (text ++ contextText none) ∈ fault.detail?) :
      isMarked text = true := by
    have hmark := h _ hm
    rw [contextText, String.append_empty] at hmark
    exact isMarked_iff.2 hmark
  cases fault with
  | failure cause context => cases context with
    | none => rw [within, if_pos (hplain rfl)]
    | some other => rfl
  | mismatch cause context => cases context with
    | none => rw [within, if_pos (hplain rfl)]
    | some other => rfl
  | _ => rfl

end Fault

/-! What can fail inside an application. -/

namespace Eval

section Inside

variable (go : Performer) (host : Host) (scope : Scope)

inductive Stops : List Value → World → Fault → World → Prop
  | here {form : Value} {forms : List Value} {w w' : World} {fault : Fault} :
      go (.eval form) scope w = some (.error fault, w') → Stops (form :: forms) w fault w'
  | later {form v : Value} {forms : List Value} {w w₁ w' : World} {fault : Fault} :
      go (.eval form) scope w = some (.ok v, w₁) → Stops forms w₁ fault w' →
      Stops (form :: forms) w fault w'

def EvaluatesAll (count : ℕ) : Value → Prop
  | .operation (.builtin (.function f)) => f.arity.broken? count = none
  | .operation (.host name) => ∃ call, host.lookup name = some (.function call)
  | .function .. => True
  | _ => False

inductive Inside : Value → List Value → World → Fault → World → Prop
  | operand {operator : Value} {operands : List Value} {w w' : World} {fault : Fault} :
      EvaluatesAll host operands.length operator → Stops go scope operands w fault w' →
      Inside operator operands w fault w'
  | target {f : CoreForm} {name : String} {form : Value} {w w' : World} {fault : Fault} :
      f = .define ∨ f = .assign → go (.eval form) scope w = some (.error fault, w') →
      Inside (.operation (.core f)) [.symbol name, form] w fault w'
  | test {test yes : Value} {no : Option Value} {w w' : World} {fault : Fault} :
      go (.eval test) scope w = some (.error fault, w') →
      Inside (.operation (.builtin (.form .branch))) (test :: yes :: no.toList) w fault w'
  | yes {test yes v : Value} {no : Option Value} {w w₁ w' : World} {fault : Fault} :
      go (.eval test) scope w = some (.ok v, w₁) → v ≠ .boolean false →
      go (.eval yes) scope w₁ = some (.error fault, w') →
      Inside (.operation (.builtin (.form .branch))) (test :: yes :: no.toList) w fault w'
  | no {test yes no : Value} {w w₁ w' : World} {fault : Fault} :
      go (.eval test) scope w = some (.ok (.boolean false), w₁) →
      go (.eval no) scope w₁ = some (.error fault, w') →
      Inside (.operation (.builtin (.form .branch))) [test, yes, no] w fault w'
  | sequence {forms : List Value} {w w' : World} {fault : Fault} :
      Stops go scope forms w fault w' →
      Inside (.operation (.builtin (.form .sequence))) forms w fault w'
  | body {mark : ℕ} {params : List String} {body operands vs : List Value} {captured : Scope}
      {w w₁ w' : World} {fault : Fault} :
      args go operands scope w = some (.ok vs, w₁) → params.length = vs.length →
      Stops go (w₁.store.extend (some captured) (Bindings.ofList (params.zip vs))).1 body
        (w₁.stored (w₁.store.extend (some captured) (Bindings.ofList (params.zip vs))).2)
        fault w' →
      Inside (.function mark params body captured) operands w fault w'

end Inside

variable {go : Performer} {host : Host} {scope : Scope} {operator : Value}
  {forms operands : List Value} {w w' : World} {fault : Fault}

lemma args_of_stops (h : Stops go scope forms w fault w') :
    args go forms scope w = some (.error fault, w') := by
  induction h with
  | here hform =>
    rw [args, List.mapM_cons]
    exact Run.bind_of_error hform
  | later hform _ ih =>
    rw [args, List.mapM_cons, Run.bind_of_ok hform]
    exact Run.bind_of_error ih

lemma sequence_of_stops (h : Stops go scope forms w fault w') :
    sequence go forms scope w = some (.error fault, w') := by
  rw [sequence]
  generalize Value.unspecified = last
  induction h generalizing last with
  | here hform =>
    rw [List.foldlM_cons]
    exact Run.bind_of_error hform
  | later hform _ ih =>
    rw [List.foldlM_cons, Run.bind_of_ok hform]
    exact ih _

lemma stops_of_foldlM {last : Value}
    (h : forms.foldlM (fun _ form => go (.eval form) scope) last w = some (.error fault, w')) :
    Stops go scope forms w fault w' := by
  induction forms generalizing last w with
  | nil => cases h
  | cons form forms ih =>
    rw [List.foldlM_cons] at h
    rcases Run.bind_eq_some h with ⟨v, w₁, hform, hrest⟩ | ⟨_, hform, ⟨⟩⟩
    · exact .later hform (ih hrest)
    · exact .here hform

lemma operand_of_stops (hop : EvaluatesAll host operands.length operator)
    (h : Stops go scope operands w fault w') :
    apply go host operator operands scope w = some (.error fault, w') := by
  have hargs {α : Type} (call : List Value → Run α) :
      (args go operands scope >>= call) w = some (.error fault, w') :=
    Run.bind_of_error (args_of_stops h)
  cases operator with
  | function mark params body captured => exact hargs _
  | operation op => cases op with
    | core f => exact hop.elim
    | builtin b => cases b with
      | form f => exact hop.elim
      | function f =>
        rw [apply, builtin_of_accepted (b := .function f) hop]
        exact hargs _
    | host name =>
      obtain ⟨call, hcall⟩ := hop
      simp only [apply, hcall, primitive]
      exact hargs _
  | _ => exact hop.elim

theorem apply_of_inside (h : Inside go host scope operator operands w fault w') :
    apply go host operator operands scope w = some (.error fault, w') := by
  cases h with
  | operand hop hstops => exact operand_of_stops hop hstops
  | target hf hform =>
    rcases hf with rfl | rfl
    · exact Run.bind_of_error hform
    · exact Run.bind_of_error hform
  | test htest =>
    rw [apply_branch, choose]
    exact Run.bind_of_error htest
  | yes htest hv hyes =>
    rw [apply_branch, choose, Run.bind_of_ok htest]
    split
    · exact absurd rfl hv
    · exact absurd rfl hv
    · exact hyes
  | no htest hno =>
    refine (congrFun (apply_branch _ _ (some _)) _).trans ?_
    rw [choose, Run.bind_of_ok htest]
    exact hno
  | sequence hstops =>
    rw [apply_sequence]
    exact sequence_of_stops hstops
  | body hargs hlength hstops =>
    rw [apply, Run.bind_of_ok hargs, enter, if_pos hlength]
    exact sequence_of_stops hstops

def Raises (go : Performer) (host : Host) (scope : Scope) (operator : Value)
    (operands : List Value) (w : World) (raised : Fault) (w' : World) : Prop :=
  apply go host operator operands scope w = some (.error raised, w') ∧
    ∀ fault w₁, ¬ Inside go host scope operator operands w fault w₁

inductive Passes (go : Performer) (host : Host) (scope : Scope) :
    Value → World → Fault → World → Prop
  | operator {mark : Option ℕ} {operator : Value} {operands : List Value} {w w' : World}
      {fault : Fault} : go (.eval operator) scope w = some (.error fault, w') →
      Passes go host scope (.list mark (operator :: operands)) w fault w'
  | inside {mark : Option ℕ} {operator v : Value} {operands : List Value} {w w₁ w' : World}
      {fault : Fault} : go (.eval operator) scope w = some (.ok v, w₁) →
      Inside go host scope v operands w₁ fault w' →
      Passes go host scope (.list mark (operator :: operands)) w fault w'

variable {fuel : ℕ} {form : Value}

lemma unbound_of_lookup {name : String}
    (h : Run.lookup scope name w = some (.error fault, w')) : fault = .unbound name := by
  have hresult := congrArg Prod.fst (Option.some.inj h)
  cases hget : w.store.get? scope name with
  | none =>
    rw [hget] at hresult
    cases hresult
    rfl
  | some v =>
    rw [hget] at hresult
    cases hresult

lemma located_eval (h : eval host fuel form scope w = some (.error fault, w')) : fault.Located := by
  induction fuel generalizing form scope w with
  | zero => cases h
  | succ fuel ih =>
    change Eval.form (perform host fuel) host form scope w = _ at h
    unfold Eval.form at h
    split at h
    · obtain rfl := unbound_of_lookup h
      rintro m ⟨⟩
    · rcases Run.bind_eq_some h with ⟨v, w₁, -, h⟩ | ⟨fault, h, ⟨⟩⟩
      · obtain ⟨⟨_ | _, _⟩, -, h⟩ := Option.map_eq_some_iff.1 h
        · cases h
          exact Fault.located_within _ _
        · cases h
      · exact ih h
    · cases h

lemma Stops.located (h : Stops (perform host fuel) scope forms w fault w') : fault.Located := by
  induction h with
  | here hform => exact located_eval hform
  | later _ _ ih => exact ih

lemma Inside.located (h : Inside (perform host fuel) host scope operator operands w fault w') :
    fault.Located := by
  cases h with
  | operand _ hstops => exact hstops.located
  | target _ hform => exact located_eval hform
  | test htest => exact located_eval htest
  | yes _ _ hyes => exact located_eval hyes
  | no _ hno => exact located_eval hno
  | sequence hstops => exact hstops.located
  | body _ _ hstops => exact hstops.located

lemma within_eq_self {run : Run Value}
    (h : ∀ fault w', run w = some (.error fault, w') → fault.Located) (form : Value) :
    run.within form w = run w := by
  cases hrun : run w with
  | none => rw [Run.within, hrun, Option.map_none]
  | some result =>
    obtain ⟨fault | v, w'⟩ := result
    · rw [Run.within_of_error hrun, (h fault w' hrun).within_eq]
    · rw [Run.within, hrun]
      rfl

lemma within_eval (form other : Value) :
    (eval host fuel form scope).within other w = eval host fuel form scope w :=
  within_eq_self (fun _ _ => located_eval) other

lemma within_sequence (other : Value) :
    (sequence (perform host fuel) forms scope).within other w =
      sequence (perform host fuel) forms scope w :=
  within_eq_self (fun _ _ h => (stops_of_foldlM h).located) other

lemma eval_of_passes (h : Passes (perform host fuel) host scope form w fault w') :
    eval host (fuel + 1) form scope w = some (.error fault, w') := by
  cases h with
  | operator hop => exact Run.bind_of_error hop
  | inside hop hinside =>
    rw [eval_list_of_ok hop, Run.within_of_error (apply_of_inside hinside),
      hinside.located.within_eq]

lemma passes_or_raises {mark : Option ℕ}
    (h : eval host (fuel + 1) (.list mark (operator :: operands)) scope w =
      some (.error fault, w')) :
    Passes (perform host fuel) host scope (.list mark (operator :: operands)) w fault w' ∨
      ∃ v w₁ raised, eval host fuel operator scope w = some (.ok v, w₁) ∧
        Raises (perform host fuel) host scope v operands w₁ raised w' ∧
        fault = raised.within (.list mark (operator :: operands)) := by
  rcases Run.bind_eq_some h with ⟨v, w₁, hop, happly⟩ | ⟨fault, hop, ⟨⟩⟩
  · obtain ⟨⟨raised | _, w₂⟩, hraised, heq⟩ := Option.map_eq_some_iff.1 happly
    · cases heq
      by_cases hinside : ∃ inner w₂,
          Inside (perform host fuel) host scope v operands w₁ inner w₂
      · -- the application fails once, so its fault is the one inside
        obtain ⟨inner, w₂, hinner⟩ := hinside
        cases hraised.symm.trans (apply_of_inside hinner)
        rw [hinner.located.within_eq]
        exact .inl (.inside hop hinner)
      · push Not at hinside
        exact .inr ⟨v, w₁, raised, hop, ⟨hraised, hinside⟩, rfl⟩
    · cases heq
  · exact .inl (.operator hop)

/-- The context of a fault: a failure or a mismatch has one as soon as an evaluation has failed by
it; the evaluation around a failed evaluation fails by the same fault; and a list whose application
fails by itself gives the fault a context, unless the text of the fault names one already. There is
no other way to fail than for a symbol to be unbound. -/
theorem eval_error_context (host : Host) (fuel : ℕ) (scope : Scope) (w : World) :
    (∀ form fault w', eval host fuel form scope w = some (.error fault, w') → fault.Located) ∧
    (∀ form fault w', Passes (perform host fuel) host scope form w fault w' →
      eval host (fuel + 1) form scope w = some (.error fault, w')) ∧
    (∀ mark operator operands v w₁ raised w',
      eval host fuel operator scope w = some (.ok v, w₁) →
      Raises (perform host fuel) host scope v operands w₁ raised w' →
      ∃ fault, eval host (fuel + 1) (.list mark (operator :: operands)) scope w =
          some (.error fault, w') ∧
        Fault.Becomes (.list mark (operator :: operands)) raised fault) ∧
    ∀ form fault w', eval host (fuel + 1) form scope w = some (.error fault, w') →
      (∃ name, form = .symbol name ∧ fault = .unbound name) ∨
      Passes (perform host fuel) host scope form w fault w' ∨
      ∃ mark operator operands v w₁ raised, form = .list mark (operator :: operands) ∧
        eval host fuel operator scope w = some (.ok v, w₁) ∧
        Raises (perform host fuel) host scope v operands w₁ raised w' ∧
        Fault.Becomes form raised fault := by
  refine ⟨fun _ _ _ => located_eval, fun _ _ _ => eval_of_passes, ?_, ?_⟩
  · rintro mark operator operands v w₁ raised w' hop ⟨hraised, -⟩
    refine ⟨_, ?_, Fault.becomes_within _ raised⟩
    rw [eval_list_of_ok hop, Run.within_of_error hraised]
  · intro form fault w' h
    cases form with
    | symbol name => exact .inl ⟨name, rfl, unbound_of_lookup h⟩
    | list mark items => cases items with
      | nil => cases h
      | cons operator operands =>
        rcases passes_or_raises h with hpasses | ⟨v, w₁, raised, hop, hraises, rfl⟩
        · exact .inr (.inl hpasses)
        · exact .inr (.inr ⟨mark, operator, operands, v, w₁, raised, rfl, hop, hraises,
            Fault.becomes_within _ raised⟩)
    | _ => cases h

def firstOfNothing : Value :=
  .ofList [.symbol "car", .ofList [.symbol "quote", .nil]]

lemma raises_of_call {f : LibraryFunction} {v : Value} {raised : Fault}
    (hform : go (.eval form) scope w = some (.ok v, w))
    (happly : apply go host (.operation (.builtin (.function f))) [form] scope w =
      some (.error raised, w')) :
    Raises go host scope (.operation (.builtin (.function f))) [form] w raised w' := by
  refine ⟨happly, ?_⟩
  rintro fault w₁ (⟨-, hstops | ⟨-, hstops⟩⟩ | _)
  · cases hform.symm.trans hstops
  · cases hstops

theorem eval_error_context_begin : ∃ first second,
    eval [] 4 (.ofList [.symbol "begin", firstOfNothing]) ⟨0, []⟩ (World.start .global).2 =
      some (.error first, (World.start .global).2) ∧
    first.detail? =
      some "car of empty list\n  Context: while evaluating: (car (quote ()))" ∧
    eval [] 3 (.ofList [.symbol "error", .string "no\n  Context: yes"]) ⟨0, []⟩
        (World.start .global).2 = some (.error second, (World.start .global).2) ∧
    second.detail? = some "no\n  Context: yes" := by
  obtain ⟨-, -, hlist, -⟩ := eval_error_context [] 2 ⟨0, []⟩ (World.start .global).2
  obtain ⟨-, hpasses, -, -⟩ := eval_error_context [] 3 ⟨0, []⟩ (World.start .global).2
  have hcar : Raises (perform [] 2) [] ⟨0, []⟩ (.operation (.builtin (.function .first)))
      [.ofList [.symbol "quote", .nil]] (World.start .global).2
      (.failure (.emptyList .first) none) (World.start .global).2 :=
    raises_of_call (v := .nil) rfl rfl
  have herror : Raises (perform [] 2) [] ⟨0, []⟩ (.operation (.builtin (.function .fail)))
      [.string "no\n  Context: yes"] (World.start .global).2
      (.failure (.raised "no\n  Context: yes") none) (World.start .global).2 :=
    raises_of_call (v := .string "no\n  Context: yes") rfl rfl
  obtain ⟨first, hfirst, hbecomes⟩ := hlist none (.symbol "car") _ _ _ _ _ rfl hcar
  obtain ⟨second, hsecond, hbecomes'⟩ := hlist none (.symbol "error") _ _ _ _ _ rfl herror
  have hbegin : eval [] 3 (.symbol "begin") ⟨0, []⟩ (World.start .global).2 =
      some (.ok (.operation (.builtin (.form .sequence))), (World.start .global).2) := rfl
  refine ⟨first, second, ?_, ?_, hsecond, ?_⟩
  · exact hpasses _ _ _ (.inside hbegin (.sequence (.here hfirst)))
  · rw [hbecomes.detail?_eq]
    decide +kernel
  · rw [hbecomes'.detail?_eq]
    decide +kernel

end Eval

/-! More of what evaluation comes to. Inside these forms no fault gets another context. -/

variable {host : Host} {fuel : ℕ} {scope captured : Scope} {w w₁ : World} {op : String}
  {test yes no form : Value} {forms operands vs : List Value} {params : List String} {m : ℕ}

lemma eval_branch {b : Bool} (hop : w.store.get? scope op = some (.operation (.builtin (.form .branch))))
    (htest : eval host (fuel + 1) test scope w = some (.ok (.boolean b), w₁)) :
    eval host (fuel + 2) (.ofList [.symbol op, test, yes, no]) scope w =
      eval host (fuel + 1) (if b then yes else no) scope w₁ := by
  change perform host (fuel + 1) (.eval test) scope w = _ at htest
  have hchoose : Eval.apply (perform host (fuel + 1)) host (.operation (.builtin (.form .branch)))
      [test, yes, no] scope w = eval host (fuel + 1) (if b then yes else no) scope w₁ := by
    refine (congrFun (Eval.apply_branch _ _ (some _)) _).trans ?_
    rw [Eval.choose, Run.bind_of_ok htest]
    cases b <;> rfl
  rw [eval_list hop, Run.within, hchoose]
  exact Eval.within_eval _ _

lemma eval_begin (hop : w.store.get? scope op = some (.operation (.builtin (.form .sequence)))) :
    eval host (fuel + 2) (.ofList (.symbol op :: forms)) scope w =
      Eval.sequence (perform host (fuel + 1)) forms scope w := by
  rw [eval_list hop, Eval.apply_sequence, Eval.within_sequence]

lemma eval_body (hop : w.store.get? scope op = some (.function m params [form] captured))
    (hargs : Eval.args (perform host (fuel + 1)) operands scope w = some (.ok vs, w₁))
    (hlength : params.length = vs.length) :
    eval host (fuel + 2) (.ofList (.symbol op :: operands)) scope w =
      eval host (fuel + 1) form
        (w₁.store.extend (some captured) (Bindings.ofList (params.zip vs))).1
        (w₁.stored (w₁.store.extend (some captured) (Bindings.ofList (params.zip vs))).2) := by
  rw [eval_closure hop hargs hlength, Eval.within_sequence, sequence_singleton]

end Lisplet

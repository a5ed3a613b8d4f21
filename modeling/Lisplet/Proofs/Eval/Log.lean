import Lisplet.Proofs.Eval.Discipline

/-! The log is written and never read: evaluation does the same whatever was logged before. -/

namespace Lisplet

def World.after (events : Array Event) (w : World) : World :=
  { w with transcript := { w.transcript with events := events ++ w.transcript.events } }

def Run.Blind {α : Type} (run : Run α) : Prop :=
  ∀ events w, run (w.after events) = (run w).map fun result => (result.1, result.2.after events)

def Performer.Blind (go : Performer) : Prop :=
  ∀ task scope, (go task scope).Blind

def Primitive.Blind : Primitive → Prop
  | .function call => ∀ args, (call args).Blind
  | .form apply => ∀ go, Performer.Blind go → ∀ operands scope, (apply go operands scope).Blind

def Host.Blind (host : Host) : Prop :=
  ∀ name p, host.lookup name = some p → p.Blind

namespace Run

variable {α β : Type} {run : Run α} {f : α → Run β}

lemma blind_ofExcept (result : Except Fault α) : (ofExcept result).Blind :=
  fun _ _ => rfl

lemma blind_pure (a : α) : (pure a : Run α).Blind :=
  blind_ofExcept (.ok a)

lemma blind_fail (fault : Fault) : (fail fault : Run α).Blind :=
  blind_ofExcept (.error fault)

lemma blind_bind (h : run.Blind) (hf : ∀ a, (f a).Blind) : (run >>= f).Blind := by
  intro events w
  rw [bind_apply, bind_apply, h events w]
  cases run w with
  | none => rfl
  | some result =>
    obtain ⟨_ | a, w₁⟩ := result
    · rfl
    · exact hf a events w₁

lemma blind_within (h : run.Blind) (form : Value) : (run.within form).Blind := by
  intro events w
  rw [within, within, h events w, Option.map_map, Option.map_map]
  rfl

lemma blind_onStore (change : Store → Store) : (onStore change).Blind :=
  fun _ _ => rfl

lemma blind_log (event : Event) : (log event).Blind := by
  intro events w
  simp only [log, onTranscript, update, World.after, Option.map_some, Array.append_push]

lemma blind_print (text : String) : (print text).Blind :=
  fun _ _ => rfl

lemma blind_note (text : String) : (note text).Blind :=
  fun _ _ => rfl

lemma blind_newList (items : List Value) : (newList items).Blind :=
  blind_bind (fun _ _ => rfl) fun m => blind_pure (Value.list (some m) items)

lemma blind_extend (outer : Option Scope) (bindings : Bindings) : (extend outer bindings).Blind :=
  fun _ _ => rfl

lemma blind_lookup (scope : Scope) (name : String) : (lookup scope name).Blind :=
  fun _ _ => rfl

lemma blind_assign (scope : Scope) (name : String) (v : Value) : (assign scope name v).Blind := by
  intro events w
  have hstore : (w.after events).store = w.store := rfl
  rw [assign, assign, hstore]
  cases w.store.assign? scope name v <;> rfl

end Run

/-! The library. -/

namespace Signature

lemma blind_run {α : Type} {signature : Signature} {f : signature.Handler (Run α)}
    {args : List Value} (h : Always Run.Blind signature.fixed signature.rest f) :
    (signature.run f args).Blind := by
  rw [Signature.run]
  split
  · next run hrun => exact (applied_of_call hrun).of_always h
  · exact Run.blind_fail _

end Signature

namespace LibraryFunction

open Run Signature

lemma blind_first (items : List Value) : (Library.first items).Blind := by
  cases items with
  | nil => exact blind_fail _
  | cons v vs => exact blind_pure v

lemma blind_rest (items : List Value) : (Library.rest items).Blind := by
  cases items with
  | nil => exact blind_fail _
  | cons v vs => exact blind_newList vs

lemma blind_cons (v w : Value) : (Library.cons v w).Blind := by
  cases w with
  | list mark items => exact blind_newList _
  | _ => exact blind_fail _

lemma blind_length (v : Value) : (Library.length v).Blind := by
  cases v with
  | list mark items => exact blind_pure _
  | string s => exact blind_pure _
  | _ => exact blind_fail _

lemma blind_echo (args : List Value) : (Library.echo args).Blind :=
  blind_bind (blind_print _) fun _ => blind_pure _

lemma blind_comparing (wanted : Ordering → Bool) (args : List Value) :
    (comparing wanted args).Blind :=
  blind_run fun _ _ => blind_ofExcept _

theorem blind_call (f : LibraryFunction) (args : List Value) : (f.call args).Blind := by
  cases f with
  | add => exact blind_run (fun _ => blind_ofExcept _)
  | subtract => exact blind_run (fun _ _ => blind_ofExcept _)
  | multiply => exact blind_run (fun _ _ => blind_ofExcept _)
  | divide => exact blind_run (fun _ _ => blind_ofExcept _)
  | remainder => exact blind_run (fun _ _ => blind_ofExcept _)
  | numEqual => exact blind_comparing _ args
  | less => exact blind_comparing _ args
  | greater => exact blind_comparing _ args
  | atMost => exact blind_comparing _ args
  | atLeast => exact blind_comparing _ args
  | equal => exact blind_run (fun _ _ => blind_pure _)
  | negate => exact blind_run (fun _ => blind_pure _)
  | list => exact blind_run blind_newList
  | first => exact blind_run blind_first
  | rest => exact blind_run blind_rest
  | cons => exact blind_run blind_cons
  | length => exact blind_run blind_length
  | isEmpty => exact blind_run (fun _ => blind_pure _)
  | concat => exact blind_run (fun _ => blind_pure _)
  | echo => exact blind_run blind_echo
  | fail => exact blind_run (fun _ => blind_fail _)

end LibraryFunction

/-! Rules. -/

namespace Eval

open Run

variable {go : Performer} {host : Host}

lemma blind_args (hgo : go.Blind) (forms : List Value) (scope : Scope) :
    (args go forms scope).Blind := by
  induction forms with
  | nil => exact blind_pure []
  | cons form forms ih =>
    rw [args, List.mapM_cons]
    exact blind_bind (hgo _ scope) fun v => blind_bind ih fun vs => blind_pure (v :: vs)

lemma blind_sequence (hgo : go.Blind) (forms : List Value) (scope : Scope) :
    (sequence go forms scope).Blind := by
  rw [sequence]
  generalize Value.unspecified = last
  induction forms generalizing last with
  | nil => exact blind_pure last
  | cons form forms ih =>
    rw [List.foldlM_cons]
    exact blind_bind (hgo _ scope) ih

lemma blind_enter (hgo : go.Blind) (names : List String) (body : List Value) (captured : Scope)
    (values : List Value) : (enter go names body captured values).Blind := by
  rw [enter]
  split
  · exact blind_bind (blind_extend _ _) (blind_sequence hgo body)
  · exact blind_fail _

lemma blind_target (hgo : go.Blind) (form : CoreForm) (operands : List Value) (scope : Scope)
    {store : String → Value → Run Value} (hstore : ∀ name v, (store name v).Blind) :
    (target go form operands scope store).Blind := by
  unfold target
  split
  · exact blind_bind (hgo _ scope) (hstore _)
  · exact blind_fail _
  · exact blind_fail _

lemma blind_define (hgo : go.Blind) (operands : List Value) (scope : Scope) :
    (define go operands scope).Blind := by
  refine blind_target hgo _ operands scope fun name v => ?_
  exact blind_bind (blind_log _) fun _ => blind_bind (blind_onStore _) fun _ => blind_pure v

lemma blind_setf (hgo : go.Blind) (operands : List Value) (scope : Scope) :
    (assign go operands scope).Blind := by
  refine blind_target hgo _ operands scope fun name v => ?_
  exact blind_bind (blind_log _) fun _ => blind_assign scope name v

lemma blind_lambda (operands : List Value) (scope : Scope) : (lambda operands scope).Blind := by
  unfold lambda
  split
  · exact blind_fail _
  · split
    · exact blind_bind (fun _ _ => rfl) fun m => blind_pure _
    · exact blind_fail _
  · exact blind_fail _

lemma blind_quote (operands : List Value) : (quote operands).Blind := by
  unfold quote
  split
  · exact blind_pure _
  · exact blind_fail _

lemma blind_core (hgo : go.Blind) (f : CoreForm) (operands : List Value) (scope : Scope) :
    (core go f operands scope).Blind := by
  cases f with
  | define => exact blind_define hgo operands scope
  | assign => exact blind_setf hgo operands scope
  | lambda => exact blind_lambda operands scope
  | quote => exact blind_quote operands

lemma blind_choose (hgo : go.Blind) (test yes : Value) (no : Option Value) (scope : Scope) :
    (choose go test yes no scope).Blind := by
  refine blind_bind (hgo _ scope) fun v => ?_
  split
  · exact blind_pure _
  · exact hgo _ scope
  · exact hgo _ scope

lemma blind_control (hgo : go.Blind) (f : ControlForm) (operands : List Value) (scope : Scope) :
    (control go f operands scope).Blind := by
  unfold control
  split
  · exact blind_choose hgo _ _ _ scope
  · exact blind_choose hgo _ _ _ scope
  · exact blind_fail _
  · exact blind_sequence hgo operands scope

lemma blind_builtin (hgo : go.Blind) (b : Builtin) (operands : List Value) (scope : Scope) :
    (builtin go b operands scope).Blind := by
  refine blind_bind (blind_ofExcept _) fun _ => ?_
  cases b with
  | form f => exact blind_control hgo f operands scope
  | function f => exact blind_bind (blind_args hgo operands scope) f.blind_call

lemma blind_primitive (hgo : go.Blind) {p : Primitive} (hp : p.Blind) (operands : List Value)
    (scope : Scope) : (primitive go p operands scope).Blind := by
  cases p with
  | function call => exact blind_bind (blind_args hgo operands scope) hp
  | form apply => exact hp go hgo operands scope

lemma blind_apply (hgo : go.Blind) (hhost : host.Blind) (operator : Value) (operands : List Value)
    (scope : Scope) : (apply go host operator operands scope).Blind := by
  unfold apply
  split
  · exact blind_core hgo _ operands scope
  · exact blind_builtin hgo _ operands scope
  · split
    · next p hp => exact blind_primitive hgo (hhost _ p hp) operands scope
    · exact blind_fail _
  · exact blind_bind (blind_args hgo operands scope) (blind_enter hgo _ _ _)
  · exact blind_fail _

lemma blind_form (hgo : go.Blind) (hhost : host.Blind) (v : Value) (scope : Scope) :
    (form go host v scope).Blind := by
  unfold form
  split
  · exact blind_lookup scope _
  · exact blind_bind (hgo _ scope) fun operator =>
      blind_within (blind_apply hgo hhost operator _ scope) _
  · exact blind_pure v

end Eval

theorem blind_perform {host : Host} (hhost : host.Blind) (fuel : ℕ) :
    (perform host fuel).Blind := by
  induction fuel with
  | zero => exact fun _ _ _ _ => rfl
  | succ fuel ih =>
    intro task scope
    cases task with
    | eval form => exact Eval.blind_form ih hhost form scope
    | apply operator operands => exact Eval.blind_apply ih hhost operator operands scope

/-! Runs that differ in what they log. -/

def World.view (note : Event → Option Event) (w : World) : World :=
  { w with transcript := { w.transcript with events := w.transcript.events.filterMap note } }

def Run.outcome {α : Type} (note : Event → Option Event) (run : Run α) (w : World) :
    Option (Except Fault α × World) :=
  (run w).map fun result => (result.1, result.2.view note)

def Run.Alike {α : Type} (note : Event → Option Event) (run run' : Run α) : Prop :=
  ∀ w w', w.view note = w'.view note → run.outcome note w = run'.outcome note w'

namespace World

variable {note : Event → Option Event} {w w' : World}

def unlogged (w : World) : World :=
  { w with transcript := { w.transcript with events := #[] } }

lemma after_unlogged (w : World) : w.unlogged.after w.transcript.events = w := by
  rw [after, unlogged, Array.append_empty]

lemma unlogged_eq_of_view (h : w.view note = w'.view note) : w.unlogged = w'.unlogged := by
  have hview (u : World) : (u.view note).unlogged = u.unlogged := rfl
  rw [← hview w, h, hview]

lemma events_eq_of_view (h : w.view note = w'.view note) :
    w.transcript.events.filterMap note = w'.transcript.events.filterMap note :=
  congrArg (fun u => u.transcript.events) h

lemma view_after (events : Array Event) :
    (w.after events).view note = (w.view note).after (events.filterMap note) := by
  have happend : (events ++ w.transcript.events).filterMap note =
      events.filterMap note ++ w.transcript.events.filterMap note :=
    Array.filterMap_append Array.size_append
  rw [view, after, happend]
  rfl

lemma view_logged (event : Event) : (w.logged event).view note =
    match note event with
    | none => w.view note
    | some other => (w.view note).logged other := by
  rw [view, Array.filterMap_push (Array.size_push _)]
  cases note event <;> rfl

end World

namespace Run

variable {α β : Type} {note : Event → Option Event} {run run' : Run α} {f f' : α → Run β}

lemma Blind.outcome_eq (h : run.Blind) (w : World) :
    outcome note run w = (run w.unlogged).map fun result =>
      (result.1, (result.2.view note).after (w.transcript.events.filterMap note)) := by
  have hrun := h w.transcript.events w.unlogged
  rw [World.after_unlogged] at hrun
  rw [outcome, hrun, Option.map_map]
  simp only [Function.comp_def, World.view_after]

lemma Blind.alike (h : run.Blind) : Alike note run run := by
  intro w w' hw
  rw [h.outcome_eq, h.outcome_eq, World.unlogged_eq_of_view hw, World.events_eq_of_view hw]

lemma alike_log {event event' : Event} (h : note event = note event') :
    Alike note (log event) (log event') := by
  intro w w' hw
  have houtcome (u : World) (e : Event) :
      outcome note (log e) u = some (.ok (), (u.logged e).view note) := rfl
  rw [houtcome, houtcome, World.view_logged, World.view_logged, h, hw]

lemma outcome_bind (run : Run α) (f : α → Run β) (w : World) :
    outcome note (run >>= f) w = (run w).bind fun result =>
      match result.1 with
      | .ok a => outcome note (f a) result.2
      | .error fault => some (.error fault, result.2.view note) := by
  rw [outcome, bind_apply]
  cases run w with
  | none => rfl
  | some result =>
    obtain ⟨_ | a, w₁⟩ := result
    · rfl
    · rfl

lemma alike_bind (h : Alike note run run') (hf : ∀ a, Alike note (f a) (f' a)) :
    Alike note (run >>= f) (run' >>= f') := by
  intro w w' hw
  have hrun := h w w' hw
  rw [outcome, outcome] at hrun
  rw [outcome_bind, outcome_bind]
  cases hr : run w with
  | none =>
    rw [hr, eq_comm, Option.map_none, Option.map_eq_none_iff] at hrun
    rw [hrun]
    rfl
  | some result =>
    rw [hr, eq_comm, Option.map_some, Option.map_eq_some_iff] at hrun
    obtain ⟨⟨r, w₁'⟩, hr', heq⟩ := hrun
    obtain ⟨rfl, hview⟩ := Prod.mk.inj heq
    obtain ⟨r, w₁⟩ := result
    rw [hr', Option.bind_some, Option.bind_some]
    cases r with
    | ok a => exact hf a w₁ w₁' hview.symm
    | error fault => exact congrArg (fun u => some (Except.error fault, u)) hview.symm

end Run

end Lisplet

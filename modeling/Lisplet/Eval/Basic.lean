import Lisplet.Library.Functions

/-! Evaluation. Each rule is written for one evaluation over a way to do the evaluations inside it,
and `perform` ties the rules together with fuel for the depth of their nesting. -/

namespace Lisplet

inductive Task where
  | eval (form : Value)
  | apply (operator : Value) (operands : List Value)

abbrev Performer := Task → Scope → Run Value

inductive Primitive where
  | function (call : List Value → Run Value)
  | form (apply : Performer → List Value → Scope → Run Value)

abbrev Host := List (String × Primitive)

namespace Eval

variable (go : Performer)

def args (forms : List Value) (scope : Scope) : Run (List Value) :=
  forms.mapM fun form => go (.eval form) scope

def sequence (forms : List Value) (scope : Scope) : Run Value :=
  forms.foldlM (fun _ form => go (.eval form) scope) .unspecified

def params : List String → List Value → Except Malformed (List String)
  | seen, [] => .ok seen.reverse
  | seen, .symbol name :: rest =>
    if seen.contains name then .error (.duplicateParam name) else params (name :: seen) rest
  | _, v :: _ => .error (.paramNotSymbol v)

def enter (names : List String) (body : List Value) (captured : Scope) (values : List Value) :
    Run Value :=
  if names.length = values.length then do
    let scope ← Run.extend (some captured) (Bindings.ofList (names.zip values))
    sequence go body scope
  else Run.fail (.arity names.length values.length none)

def target (form : CoreForm) (operands : List Value) (scope : Scope)
    (store : String → Value → Run Value) : Run Value :=
  match operands with
  | [.symbol name, expression] => go (.eval expression) scope >>= store name
  | [_, _] => Run.fail (.malformed (.targetNotSymbol form))
  | _ => Run.fail (.malformed (.operandCount form 2 operands.length))

def define (operands : List Value) (scope : Scope) : Run Value :=
  target go .define operands scope fun name v => do
    Run.log (.defined name v)
    Run.define scope name v
    pure v

def assign (operands : List Value) (scope : Scope) : Run Value :=
  target go .assign operands scope fun name v => do
    Run.log (.assigned name v)
    Run.assign scope name v

def lambda (operands : List Value) (scope : Scope) : Run Value :=
  match operands with
  | [] => Run.fail (.malformed .paramsMissing)
  | .list _ items :: body =>
    match params [] items with
    | .ok names => Run.mark >>= fun m => pure (.function m names body scope)
    | .error cause => Run.fail (.malformed cause)
  | _ :: _ => Run.fail (.malformed .paramsNotList)

def quote : List Value → Run Value
  | [form] => pure form
  | operands => Run.fail (.malformed (.operandCount .quote 1 operands.length))

def core : CoreForm → List Value → Scope → Run Value
  | .define => define go
  | .assign => assign go
  | .lambda => lambda
  | .quote => fun operands _ => quote operands

def choose (test yes : Value) (no : Option Value) (scope : Scope) : Run Value := do
  match ← go (.eval test) scope, no with
  | .boolean false, none => pure .unspecified
  | .boolean false, some no => go (.eval no) scope
  | _, _ => go (.eval yes) scope

def control : ControlForm → List Value → Scope → Run Value
  | .branch, [test, yes], scope => choose go test yes none scope
  | .branch, [test, yes, no], scope => choose go test yes (some no) scope
  | .branch, operands, _ => Run.fail (.arity 3 operands.length none)
  | .sequence, forms, scope => sequence go forms scope

def builtin (b : Builtin) (operands : List Value) (scope : Scope) : Run Value := do
  Run.ofExcept (b.arity.check operands.length)
  match b with
  | .form f => control go f operands scope
  | .function f => args go operands scope >>= f.call

def primitive (p : Primitive) (operands : List Value) (scope : Scope) : Run Value :=
  match p with
  | .function call => args go operands scope >>= call
  | .form apply => apply go operands scope

def apply (host : Host) (operator : Value) (operands : List Value) (scope : Scope) : Run Value :=
  match operator with
  | .operation (.core f) => core go f operands scope
  | .operation (.builtin b) => builtin go b operands scope
  | .operation (.host name) =>
    match host.lookup name with
    | some p => primitive go p operands scope
    | none => Run.fail (.mismatch (.notApplicable operator) none)
  | .function _ names body captured =>
    args go operands scope >>= enter go names body captured
  | _ => Run.fail (.mismatch (.notApplicable operator) none)

def form (host : Host) (v : Value) (scope : Scope) : Run Value :=
  match v with
  | .symbol name => Run.lookup scope name
  | .list _ (operator :: operands) => do
    let operator ← go (.eval operator) scope
    (apply go host operator operands scope).within v
  | v => pure v

def step (host : Host) : Performer
  | .eval v, scope => form go host v scope
  | .apply operator operands, scope => apply go host operator operands scope

end Eval

/-- Does a task with at most `fuel` evaluations inside one another. -/
def perform (host : Host) : Nat → Performer
  | 0, _, _ => Run.outOfFuel
  | fuel + 1, task, scope => Eval.step (perform host fuel) host task scope

def eval (host : Host) (fuel : Nat) (form : Value) (scope : Scope) : Run Value :=
  perform host fuel (.eval form) scope

end Lisplet
